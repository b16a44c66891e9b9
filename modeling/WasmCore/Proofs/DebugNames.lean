import Mathlib.Data.List.Sort
import Mathlib.Logic.Function.Basic
import WasmCore.Report

/-!
# Debug names

A report lists the functions that have a debug name or named locals. Each of them comes once, in
ascending order, with the last of the names given to it and the last of the lists of its locals,
however the entries of the section are ordered and repeated (`Report.nameLines_exact`).

The same list is made by going through the entries once: two maps are filled, and an index is noted
when it is in neither of them (`Report.Gathered`). What is known of the maps and the noted indices
(`Report.Gathered.Knows`) is kept by every further entry.
-/

namespace WasmCore.Report

variable {α : Type} {index : α → UInt32} {xs : List α} {i j : UInt32} {x : α}
  {is : List UInt32} {n : NameSection}

/-! ### Ascending indices -/

theorem mem_dropRepeats : i ∈ dropRepeats is ↔ i ∈ is := by
  fun_induction dropRepeats is with
  | case1 rest j ih =>
    rw [ih]
    exact ⟨List.mem_cons_of_mem _, fun h => (List.mem_cons.1 h).elim (· ▸ List.mem_cons_self) id⟩
  | case2 i j rest h ih => rw [List.mem_cons, ih, ← List.mem_cons]
  | case3 is => rfl

/-- Among sorted indices equal ones are neighbours. -/
theorem pairwise_dropRepeats (h : is.Pairwise (· ≤ ·)) : (dropRepeats is).Pairwise (· < ·) := by
  fun_induction dropRepeats is with
  | case1 rest j ih => exact ih h.of_cons
  | case2 i j rest hne ih =>
    refine List.pairwise_cons.2 ⟨fun k hk => ?_, ih h.of_cons⟩
    have hij : i < j := UInt32.lt_of_le_of_ne (List.rel_of_pairwise_cons h List.mem_cons_self) hne
    rcases List.mem_cons.1 (mem_dropRepeats.1 hk) with rfl | hrest
    · exact hij
    · exact UInt32.lt_of_lt_of_le hij (List.rel_of_pairwise_cons h.of_cons hrest)
  | case3 is hshort =>
    match is, hshort with
    | [], _ => exact .nil
    | [i], _ => exact List.pairwise_singleton _ i
    | i :: j :: rest, hshort => exact absurd rfl (hshort i j rest)

/-- The function has a debug name or named locals. -/
def IsNamed (n : NameSection) (i : UInt32) : Prop :=
  (∃ x ∈ n.functions, x.index = i) ∨ ∃ l ∈ n.locals, l.index = i

theorem isNamed_append_function {x : NameAssoc} :
    IsNamed { n with functions := n.functions ++ [x] } i ↔ IsNamed n i ∨ i = x.index := by
  simp only [IsNamed, List.mem_append, List.mem_singleton]
  grind

theorem isNamed_append_locals {l : LocalNames} :
    IsNamed { n with locals := n.locals ++ [l] } i ↔ IsNamed n i ∨ i = l.index := by
  simp only [IsNamed, List.mem_append, List.mem_singleton]
  grind

theorem mem_namedFunctions : i ∈ namedFunctions n ↔ IsNamed n i := by
  rw [namedFunctions, mem_dropRepeats, List.mem_mergeSort, List.mem_append, List.mem_map,
    List.mem_map, IsNamed]

theorem pairwise_namedFunctions (n : NameSection) : (namedFunctions n).Pairwise (· < ·) :=
  pairwise_dropRepeats (List.pairwise_mergeSort' (· ≤ ·) _)

/-! ### Last entries -/

/-- The entry is the last one for the index. -/
def IsLast (index : α → UInt32) (xs : List α) (i : UInt32) (x : α) : Prop :=
  ∃ before after, xs = before ++ x :: after ∧ index x = i ∧ ∀ y ∈ after, index y ≠ i

theorem lastWith?_append_singleton (xs : List α) (x : α) (i : UInt32) :
    lastWith? index (xs ++ [x]) i = if index x = i then some x else lastWith? index xs i := by
  simp only [lastWith?, List.findRev?_eq_find?_reverse, List.reverse_append, List.reverse_singleton,
    List.singleton_append, List.find?_cons]
  by_cases h : index x = i <;> simp [h]

/-- A map of last entries that is updated by one more entry. -/
theorem update_lastWith? {β : Type} {f : α → β} {last : UInt32 → Option β}
    (h : ∀ i, last i = (lastWith? index xs i).map f) (x : α) (i : UInt32) :
    Function.update last (index x) (some (f x)) i = (lastWith? index (xs ++ [x]) i).map f := by
  rw [Function.update_apply, lastWith?_append_singleton, h]
  by_cases hi : i = index x
  · rw [if_pos hi, if_pos hi.symm, Option.map_some]
  · rw [if_neg hi, if_neg (Ne.symm hi)]

theorem isSome_lastWith? : (lastWith? index xs i).isSome = true ↔ ∃ x ∈ xs, index x = i := by
  simp only [lastWith?, List.findRev?_eq_find?_reverse, List.find?_isSome, List.mem_reverse,
    decide_eq_true_eq]

theorem lastWith?_eq_some (h : lastWith? index xs i = some x) : IsLast index xs i x := by
  rw [lastWith?, List.findRev?_eq_find?_reverse, List.find?_eq_some_iff_append] at h
  obtain ⟨hx, after, before, hxs, hafter⟩ := h
  refine ⟨before.reverse, after.reverse, ?_, of_decide_eq_true hx, fun y hy => ?_⟩
  · rw [← List.reverse_reverse xs, hxs]
    simp
  · simpa using hafter y (List.mem_reverse.1 hy)

theorem lastWith?_eq_none (h : lastWith? index xs i = none) : ∀ x ∈ xs, index x ≠ i := by
  rw [lastWith?, List.findRev?_eq_find?_reverse, List.find?_eq_none] at h
  intro x hx
  simpa using h x (List.mem_reverse.2 hx)

/-! ### Functions of a report -/

/-- A function as a report shows it. -/
structure NamedFunction where
  index : UInt32
  name : String
  locals : List NameAssoc
  deriving DecidableEq, Repr

namespace NamedFunction

/-- The entry of the function, with its locals under it. -/
def lines (f : NamedFunction) : List Line :=
  entry ("    * " ++ four f.index.toNat ++ " " ++ f.name) ::
    f.locals.map fun l => entry ("      * " ++ four l.index.toNat ++ " " ++ l.name)

/-- The function has the last of its names, if it has one, and the last list of its locals. -/
structure IsShown (n : NameSection) (f : NamedFunction) : Prop where
  name : (∃ x, IsLast NameAssoc.index n.functions f.index x ∧ f.name = x.name) ∨
    (∀ x ∈ n.functions, x.index ≠ f.index) ∧ f.name = "<no name>"
  locals : (∃ l, IsLast LocalNames.index n.locals f.index l ∧ f.locals = l.names) ∨
    (∀ l ∈ n.locals, l.index ≠ f.index) ∧ f.locals = []

end NamedFunction

/-- The function with an index. -/
def namedFunction (n : NameSection) (i : UInt32) : NamedFunction where
  index := i
  name := ((lastWith? NameAssoc.index n.functions i).map NameAssoc.name).getD "<no name>"
  locals := ((lastWith? LocalNames.index n.locals i).map LocalNames.names).getD []

theorem namedFunction_isShown (n : NameSection) (i : UInt32) :
    (namedFunction n i).IsShown n where
  name := by
    unfold namedFunction
    cases h : lastWith? NameAssoc.index n.functions i with
    | some x => exact .inl ⟨x, lastWith?_eq_some h, rfl⟩
    | none => exact .inr ⟨lastWith?_eq_none h, rfl⟩
  locals := by
    unfold namedFunction
    cases h : lastWith? LocalNames.index n.locals i with
    | some l => exact .inl ⟨l, lastWith?_eq_some h, rfl⟩
    | none => exact .inr ⟨lastWith?_eq_none h, rfl⟩

/-- The debug names in lines, the functions being these. -/
def linesOf (n : NameSection) (fs : List NamedFunction) : List Line :=
  title "  Debug Names:" ::
    (if n.module = "" then [] else [entry ("    Module: " ++ n.module)]) ++
    if fs = [] then [] else title "    Functions:" :: fs.flatMap NamedFunction.lines

theorem nameLines_eq (n : NameSection) :
    nameLines n = linesOf n ((namedFunctions n).map (namedFunction n)) := by
  rw [nameLines, linesOf]
  have hmodule : n.module.isEmpty = true ↔ n.module = "" := String.isEmpty_iff
  cases hfs : namedFunctions n with
  | nil => simp [hmodule]
  | cons i is => simp [hmodule, List.flatMap_map]; rfl

/-! ### One pass over the entries -/

/-- Notes an index at the end, unless it was seen before. -/
def note (seen : Bool) (is : List UInt32) (i : UInt32) : List UInt32 :=
  if seen then is else is ++ [i]

theorem mem_note {seen : Bool} (h : seen = true ↔ i ∈ is) :
    j ∈ note seen is i ↔ j ∈ is ∨ j = i := by
  unfold note
  split
  · rename_i hseen
    exact ⟨.inl, fun hj => hj.elim id (· ▸ h.1 hseen)⟩
  · rw [List.mem_append, List.mem_singleton]

theorem nodup_note {seen : Bool} (h : seen = true ↔ i ∈ is) (his : is.Nodup) :
    (note seen is i).Nodup := by
  unfold note
  split
  · exact his
  · rename_i hseen
    exact List.nodup_append.2 ⟨his, List.pairwise_singleton _ i, fun j hj k hk hjk =>
      hseen (h.2 (List.mem_singleton.1 hk ▸ hjk ▸ hj))⟩

/-- What has been gathered from some entries: the names of functions and those of locals by index,
and the indices in the order in which they were met first. -/
structure Gathered where
  names : UInt32 → Option String := fun _ => none
  locals : UInt32 → Option (List NameAssoc) := fun _ => none
  indices : List UInt32 := []

namespace Gathered

/-- Gathers the name of a function. -/
def addName (g : Gathered) (x : NameAssoc) : Gathered where
  names := Function.update g.names x.index (some x.name)
  locals := g.locals
  indices := note (g.names x.index).isSome g.indices x.index

/-- Gathers the names of the locals of a function. -/
def addLocals (g : Gathered) (l : LocalNames) : Gathered where
  names := g.names
  locals := Function.update g.locals l.index (some l.names)
  indices := note ((g.names l.index).isSome || (g.locals l.index).isSome) g.indices l.index

/-- The functions in ascending order. -/
def functions (g : Gathered) : List NamedFunction :=
  (g.indices.mergeSort fun i j => decide (i ≤ j)).map fun i =>
    ⟨i, (g.names i).getD "<no name>", (g.locals i).getD []⟩

/-- The maps have the last entries of the section, and the indices are those of its entries, each
once. -/
structure Knows (g : Gathered) (n : NameSection) : Prop where
  names : ∀ i, g.names i = (lastWith? NameAssoc.index n.functions i).map NameAssoc.name
  locals : ∀ i, g.locals i = (lastWith? LocalNames.index n.locals i).map LocalNames.names
  mem : ∀ i, i ∈ g.indices ↔ IsNamed n i
  nodup : g.indices.Nodup

namespace Knows

variable {g : Gathered}

theorem isSome_names (h : g.Knows n) (i : UInt32) :
    (g.names i).isSome = true ↔ ∃ x ∈ n.functions, x.index = i := by
  rw [h.names, Option.isSome_map, isSome_lastWith?]

theorem isSome_locals (h : g.Knows n) (i : UInt32) :
    (g.locals i).isSome = true ↔ ∃ l ∈ n.locals, l.index = i := by
  rw [h.locals, Option.isSome_map, isSome_lastWith?]

/-- Names are gathered before locals, so an index that has no name has not been met. -/
theorem addName (h : g.Knows n) (hlocals : n.locals = []) (x : NameAssoc) :
    (g.addName x).Knows { n with functions := n.functions ++ [x] } := by
  have hseen : (g.names x.index).isSome = true ↔ x.index ∈ g.indices := by
    rw [h.isSome_names, h.mem, IsNamed, hlocals]
    simp
  refine ⟨fun i => ?_, h.locals, fun i => ?_, nodup_note hseen h.nodup⟩
  · exact update_lastWith? h.names x i
  · exact (mem_note hseen).trans ((or_congr_left (h.mem i)).trans isNamed_append_function.symm)

theorem addLocals (h : g.Knows n) (l : LocalNames) :
    (g.addLocals l).Knows { n with locals := n.locals ++ [l] } := by
  have hseen : ((g.names l.index).isSome || (g.locals l.index).isSome) = true ↔
      l.index ∈ g.indices := by
    rw [Bool.or_eq_true, h.isSome_names, h.isSome_locals, h.mem, IsNamed]
  refine ⟨h.names, fun i => ?_, fun i => ?_, nodup_note hseen h.nodup⟩
  · exact update_lastWith? h.locals l i
  · exact (mem_note hseen).trans ((or_congr_left (h.mem i)).trans isNamed_append_locals.symm)

theorem foldl_addName (h : g.Knows n) (hlocals : n.locals = []) (xs : List NameAssoc) :
    (xs.foldl Gathered.addName g).Knows { n with functions := n.functions ++ xs } := by
  induction xs generalizing g n with
  | nil => simpa using h
  | cons x xs ih => simpa using ih (h.addName hlocals x) hlocals

theorem foldl_addLocals (h : g.Knows n) (ls : List LocalNames) :
    (ls.foldl Gathered.addLocals g).Knows { n with locals := n.locals ++ ls } := by
  induction ls generalizing g n with
  | nil => simpa using h
  | cons l ls ih => simpa using ih (h.addLocals l)

/-- Nothing is known before the first entry. -/
theorem empty (module : String) : ({} : Gathered).Knows { module } where
  names _ := rfl
  locals _ := rfl
  mem i := by simp [IsNamed]
  nodup := .nil

/-- What is known of all entries is what the report shows. -/
theorem functions_eq (h : g.Knows n) :
    g.functions = (namedFunctions n).map (namedFunction n) := by
  have hlt : (g.indices.mergeSort fun i j => decide (i ≤ j)).Pairwise (· < ·) := by
    have hnodup := (List.mergeSort_perm g.indices fun i j => decide (i ≤ j)).nodup_iff.2 h.nodup
    exact (List.pairwise_mergeSort' (· ≤ ·) g.indices).imp₂ (fun _ _ => UInt32.lt_of_le_of_ne)
      hnodup
  have hsorted : (g.indices.mergeSort fun i j => decide (i ≤ j)) = namedFunctions n := by
    refine hlt.eq_of_mem_iff (pairwise_namedFunctions n) fun i => ?_
    rw [List.mem_mergeSort, h.mem, mem_namedFunctions]
  rw [functions, hsorted]
  refine List.map_congr_left fun i _ => ?_
  rw [h.names, h.locals]
  rfl

end Knows

/-- Gathers the entries of a section: the names of functions first, then those of locals. -/
def ofSection (n : NameSection) : Gathered :=
  n.locals.foldl addLocals (n.functions.foldl addName {})

theorem knows_ofSection (n : NameSection) : (ofSection n).Knows n := by
  have hnames := (Knows.empty n.module).foldl_addName rfl n.functions
  exact hnames.foldl_addLocals n.locals

end Gathered

/-! ### Reports -/

/-- **Every named function is listed once.** The functions of the report ascend strictly, they are
those with an entry in one of the two maps of the section, and each is shown with the last of its
names and the last list of its locals. One pass over the entries finds the same functions. -/
theorem nameLines_exact (n : NameSection) :
    ∃ fs : List NamedFunction, nameLines n = linesOf n fs ∧
      (fs.map NamedFunction.index).Pairwise (· < ·) ∧
      (∀ i, i ∈ fs.map NamedFunction.index ↔
        (∃ x ∈ n.functions, x.index = i) ∨ ∃ l ∈ n.locals, l.index = i) ∧
      (∀ f ∈ fs, f.IsShown n) ∧
      fs = (Gathered.ofSection n).functions := by
  have hindices : ((namedFunctions n).map (namedFunction n)).map NamedFunction.index =
      namedFunctions n := by
    rw [List.map_map]
    exact List.map_id _
  refine ⟨_, nameLines_eq n, ?_, fun i => ?_, ?_, (Gathered.knows_ofSection n).functions_eq.symm⟩
  · rw [hindices]
    exact pairwise_namedFunctions n
  · rw [hindices]
    exact mem_namedFunctions
  · intro f hf
    obtain ⟨i, -, rfl⟩ := List.mem_map.1 hf
    exact namedFunction_isShown n i

/-- Entries in no order, some of them for the same function. -/
def tangled : NameSection where
  functions := [⟨7, "b"⟩, ⟨0, "a"⟩, ⟨7, "c"⟩]
  locals := [⟨3, [⟨1, "x"⟩]⟩, ⟨7, []⟩, ⟨3, [⟨1, "y"⟩, ⟨0, "z"⟩]⟩]

theorem nameLines_exact_tangled : nameLines tangled = linesOf tangled
    [⟨0, "a", []⟩, ⟨3, "<no name>", [⟨1, "y"⟩, ⟨0, "z"⟩]⟩, ⟨7, "c", []⟩] := by
  have hfunctions : (Gathered.ofSection tangled).functions =
      [⟨0, "a", []⟩, ⟨3, "<no name>", [⟨1, "y"⟩, ⟨0, "z"⟩]⟩, ⟨7, "c", []⟩] := by
    simp [Gathered.ofSection, Gathered.functions, Gathered.addName, Gathered.addLocals, note,
      tangled, List.mergeSort]
  obtain ⟨fs, hlines, -, -, -, hfs⟩ := nameLines_exact tangled
  rw [hlines, hfs, hfunctions]

end WasmCore.Report
