import Mathlib.Tactic

/-!
An allocation is a block of cells, and a cell nothing was written to yet is
empty. Loads and stores outside of the block have no result, and neither has a
load of an empty cell.
-/

namespace GitRpc.Library.Allocations

variable {α : Type*}

/-- The cells of one allocation. -/
abbrev Block (α : Type*) := List (Option α)

/-- What the cells hold, when all of them were written. -/
def contents : Block α → Option (List α)
  | [] => some []
  | none :: _ => none
  | some value :: rest => (contents rest).map (value :: ·)

theorem contents_nil : contents ([] : Block α) = some [] := rfl

theorem contents_empty (rest : Block α) : contents (none :: rest) = none := rfl

theorem contents_cons (value : α) (rest : Block α) :
    contents (some value :: rest) = (contents rest).map (value :: ·) := rfl

theorem contents_eq_some_iff {block : Block α} {values : List α} :
    contents block = some values ↔ block = values.map some := by
  induction block generalizing values with
  | nil => cases values <;> simp [contents_nil]
  | cons cell rest ih =>
      cases cell with
      | none => cases values <;> simp [contents_empty]
      | some value =>
          cases values with
          | nil => simp [contents_cons]
          | cons first more => simp [contents_cons, ih, and_comm]

/-- The values of `count` cells from `offset` on. -/
def load (block : Block α) (offset count : Nat) : Option (List α) :=
  if offset + count ≤ block.length then contents ((block.drop offset).take count) else none

/-- Write the values to the cells from `offset` on. -/
def store (block : Block α) (offset : Nat) (values : List α) : Option (Block α) :=
  if offset + values.length ≤ block.length then
    some (block.take offset ++ values.map some ++ block.drop (offset + values.length))
  else none

/-- Keep the cells there is room for. What is new is empty. -/
def realloc (block : Block α) (size : Nat) : Block α :=
  block.take size ++ List.replicate (size - block.length) none

/-- Copy `count` cells from the front of one block to the front of another, written or
not. -/
def copyFront (source block : Block α) (count : Nat) : Option (Block α) :=
  if count ≤ source.length ∧ count ≤ block.length then
    some (source.take count ++ block.drop count)
  else none

section Load

variable {block : Block α} {offset count : Nat} {values : List α}

theorem load_cells_iff :
    load block offset count = some values ↔
      offset + count ≤ block.length ∧ (block.drop offset).take count = values.map some :=
  Option.ite_none_right_eq_some.trans (and_congr_right fun _ => contents_eq_some_iff)

theorem load_eq_some_iff :
    load block offset count = some values ↔
      values.length = count ∧
        ∃ before after, before.length = offset ∧ block = before ++ values.map some ++ after := by
  constructor
  · intro hload
    obtain ⟨hbound, hcells⟩ := load_cells_iff.mp hload
    have hcount : values.length = count := by
      have hlength := congrArg List.length hcells
      simp only [List.length_take, List.length_drop, List.length_map] at hlength
      omega
    refine ⟨hcount, block.take offset, block.drop (offset + count), ?_, ?_⟩
    · rw [List.length_take]
      omega
    · rw [← hcells, List.append_assoc, ← List.drop_drop, List.take_append_drop,
        List.take_append_drop]
  · intro hparts
    obtain ⟨hcount, before, after, hbefore, hblock⟩ := hparts
    have hbound : offset + count ≤ block.length := by
      rw [hblock]
      simp only [List.length_append, List.length_map]
      omega
    refine load_cells_iff.mpr ⟨hbound, ?_⟩
    rw [hblock, List.append_assoc, List.drop_left' hbefore,
      List.take_left' (by rw [List.length_map, hcount])]

theorem length_of_load (hload : load block offset count = some values) :
    values.length = count := (load_eq_some_iff.mp hload).1

theorem load_bound (hload : load block offset count = some values) :
    offset + count ≤ block.length := by
  obtain ⟨hcount, before, after, hbefore, hblock⟩ := load_eq_some_iff.mp hload
  have hlength := congrArg List.length hblock
  simp only [List.length_append, List.length_map] at hlength
  omega

/-- A load of two lists is a load of either behind the other. -/
theorem load_append_iff {first second : List α} :
    load block offset (first.length + second.length) = some (first ++ second) ↔
      load block offset first.length = some first ∧
        load block (offset + first.length) second.length = some second := by
  constructor
  · intro hload
    obtain ⟨-, before, after, hbefore, hblock⟩ := load_eq_some_iff.mp hload
    constructor
    · exact load_eq_some_iff.mpr ⟨rfl, before, second.map some ++ after, hbefore, by
        simp [hblock]⟩
    · refine load_eq_some_iff.mpr ⟨rfl, before ++ first.map some, after, ?_, by simp [hblock]⟩
      rw [List.length_append, List.length_map, hbefore]
  · intro hloads
    obtain ⟨hfirst, hsecond⟩ := hloads
    obtain ⟨-, before, after, hbefore, hblock⟩ := load_eq_some_iff.mp hfirst
    obtain ⟨-, before', after', hbefore', hblock'⟩ := load_eq_some_iff.mp hsecond
    have hsplit : before ++ first.map some ++ after =
        before' ++ (second.map some ++ after') := by
      rw [← hblock, hblock', List.append_assoc]
    have hparts := List.append_inj hsplit (by simp [hbefore, hbefore'])
    refine load_eq_some_iff.mpr ⟨List.length_append, before, after', hbefore, ?_⟩
    rw [hblock', ← hparts.1]
    simp

theorem load_nil (hbound : offset ≤ block.length) : load block offset 0 = some [] :=
  load_eq_some_iff.mpr ⟨rfl, block.take offset, block.drop offset, by simp [hbound], by simp⟩

theorem load_whole (values : List α) : load (values.map some) 0 values.length = some values :=
  load_eq_some_iff.mpr ⟨rfl, [], [], rfl, by simp⟩

/-- A load of a part of what can be loaded. -/
theorem load_part {skip part : Nat} (hload : load block offset count = some values)
    (hpart : skip + part ≤ count) :
    load block (offset + skip) part = some ((values.drop skip).take part) := by
  have hcount := length_of_load hload
  have hskip : (values.take skip).length = skip := by
    rw [List.length_take]
    omega
  have htake : ((values.drop skip).take part).length = part := by
    simp only [List.length_take, List.length_drop]
    omega
  have hback : load block (offset + skip) (values.drop skip).length = some (values.drop skip) := by
    have hwhole : load block offset ((values.take skip).length + (values.drop skip).length) =
        some (values.take skip ++ values.drop skip) := by
      rw [← List.length_append, List.take_append_drop, hcount, hload]
    have hdrop := (load_append_iff.mp hwhole).2
    rwa [hskip] at hdrop
  have hsplit : load block (offset + skip)
      (((values.drop skip).take part).length + ((values.drop skip).drop part).length) =
        some ((values.drop skip).take part ++ (values.drop skip).drop part) := by
    rw [← List.length_append, List.take_append_drop, hback]
  have hfront := (load_append_iff.mp hsplit).1
  rwa [htake] at hfront

/-- A load that counts from further behind. -/
theorem load_drop {skip : Nat} (hbound : skip + count ≤ block.length) :
    load (block.drop skip) offset count = load block (skip + offset) count := by
  have hcells : (block.drop skip).drop offset = block.drop (skip + offset) := List.drop_drop
  have hlength : (block.drop skip).length = block.length - skip := List.length_drop
  exact ite_congr (propext (by omega)) (fun _ => congrArg (fun b => contents (b.take count)) hcells)
    (fun _ => rfl)

/-- Only the cells that are read decide a load. -/
theorem load_congr {other : Block α}
    (hlength : offset + count ≤ block.length ↔ offset + count ≤ other.length)
    (hcells : ∀ i, offset ≤ i → i < offset + count → block[i]? = other[i]?) :
    load block offset count = load other offset count := by
  have htake : (block.drop offset).take count = (other.drop offset).take count := by
    apply List.ext_getElem?
    intro i
    rcases Nat.lt_or_ge i count with hi | hi
    · rw [List.getElem?_take_of_lt hi, List.getElem?_take_of_lt hi, List.getElem?_drop,
        List.getElem?_drop, hcells (offset + i) (by omega) (by omega)]
    · rw [List.getElem?_eq_none (by rw [List.length_take]; omega),
        List.getElem?_eq_none (by rw [List.length_take]; omega)]
  exact ite_congr (propext hlength) (fun _ => congrArg contents htake) (fun _ => rfl)

/-- A load from the front that is kept. -/
theorem load_take {size : Nat} (hbound : offset + count ≤ size) :
    load (block.take size) offset count = load block offset count := by
  apply load_congr
  · rw [List.length_take]
    omega
  · intro i hlow hhigh
    rw [List.getElem?_take_of_lt (by omega)]

end Load

section Store

variable {block next : Block α} {offset count place : Nat} {values : List α}

theorem store_eq_some_iff :
    store block offset values = some next ↔
      offset + values.length ≤ block.length ∧
        next = block.take offset ++ values.map some ++ block.drop (offset + values.length) :=
  Option.ite_none_right_eq_some.trans
    (and_congr_right fun _ => Option.some_inj.trans eq_comm)

theorem store_exists (hbound : offset + values.length ≤ block.length) :
    ∃ next, store block offset values = some next :=
  ⟨_, store_eq_some_iff.mpr ⟨hbound, rfl⟩⟩

theorem length_store (hstore : store block offset values = some next) :
    next.length = block.length := by
  obtain ⟨hbound, rfl⟩ := store_eq_some_iff.mp hstore
  simp only [List.length_append, List.length_take, List.length_map, List.length_drop]
  omega

theorem load_store_same (hstore : store block offset values = some next) :
    load next offset values.length = some values := by
  obtain ⟨hbound, hnext⟩ := store_eq_some_iff.mp hstore
  refine load_eq_some_iff.mpr ⟨rfl, _, _, ?_, hnext⟩
  rw [List.length_take]
  omega

theorem load_store_disjoint (hstore : store block offset values = some next)
    (hdisjoint : place + count ≤ offset ∨ offset + values.length ≤ place) :
    load next place count = load block place count := by
  have hlength := length_store hstore
  obtain ⟨hbound, hnext⟩ := store_eq_some_iff.mp hstore
  apply load_congr
  · rw [hlength]
  · intro i hlow hhigh
    have htake : (block.take offset).length = offset := by
      rw [List.length_take]
      omega
    rcases hdisjoint with hbefore | hbehind
    · rw [hnext, List.append_assoc, List.getElem?_append_left (by omega),
        List.getElem?_take_of_lt (by omega)]
    · have hfront : (block.take offset ++ values.map some).length = offset + values.length := by
        simp [htake]
      rw [hnext, List.getElem?_append_right (by omega), hfront, List.getElem?_drop]
      congr 1
      omega

/-- What is stored behind a list is loaded behind it. -/
theorem load_store_append {front : List α}
    (hfront : load block offset front.length = some front)
    (hstore : store block (offset + front.length) values = some next) :
    load next offset (front ++ values).length = some (front ++ values) := by
  rw [List.length_append]
  apply load_append_iff.mpr
  constructor
  · rw [load_store_disjoint hstore (by omega), hfront]
  · exact load_store_same hstore

end Store

section Realloc

variable {block : Block α} {offset count size : Nat}

theorem length_realloc (block : Block α) (size : Nat) : (realloc block size).length = size := by
  have hparts : (realloc block size).length =
      (block.take size).length + (List.replicate (size - block.length) none).length :=
    List.length_append
  rw [hparts, List.length_take, List.length_replicate]
  omega

theorem load_realloc (hblock : offset + count ≤ block.length) (hsize : offset + count ≤ size) :
    load (realloc block size) offset count = load block offset count := by
  apply load_congr
  · rw [length_realloc]
    omega
  · intro i hlow hhigh
    have hkept : (realloc block size)[i]? = (block.take size)[i]? :=
      List.getElem?_append_left (by rw [List.length_take]; omega)
    rw [hkept, List.getElem?_take_of_lt (by omega)]

end Realloc

section CopyFront

variable {source block next : Block α} {offset count size : Nat}

theorem copyFront_eq_some_iff :
    copyFront source block size = some next ↔
      (size ≤ source.length ∧ size ≤ block.length) ∧
        next = source.take size ++ block.drop size :=
  Option.ite_none_right_eq_some.trans
    (and_congr_right fun _ => Option.some_inj.trans eq_comm)

theorem copyFront_exists (hsource : size ≤ source.length) (hblock : size ≤ block.length) :
    ∃ next, copyFront source block size = some next :=
  ⟨_, copyFront_eq_some_iff.mpr ⟨⟨hsource, hblock⟩, rfl⟩⟩

theorem length_copyFront (hcopy : copyFront source block size = some next) :
    next.length = block.length := by
  obtain ⟨hbounds, rfl⟩ := copyFront_eq_some_iff.mp hcopy
  simp only [List.length_append, List.length_take, List.length_drop]
  omega

theorem load_copyFront (hcopy : copyFront source block size = some next)
    (hpart : offset + count ≤ size) : load next offset count = load source offset count := by
  have hlength := length_copyFront hcopy
  obtain ⟨hbounds, rfl⟩ := copyFront_eq_some_iff.mp hcopy
  apply load_congr
  · omega
  · intro i hlow hhigh
    rw [List.getElem?_append_left (by rw [List.length_take]; omega),
      List.getElem?_take_of_lt (by omega)]

end CopyFront

end GitRpc.Library.Allocations
