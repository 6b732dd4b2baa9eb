import Mathlib.Tactic

/-!
The body of a request behind its commands, as an `io.Reader` gives it out:
each `Read` fills the start of the one buffer and says how far, and may report
an error beside the bytes or instead of them. It may use the rest of the
buffer as it likes, may give no bytes without an error, and goes on to report
the end of the body once it has.
-/

namespace GitRpc.Frontend

/-- The size of the buffer. -/
def chunkSize : Nat := 2 * 1024 * 1024

inductive ReadError where
  | EOF
  | other (err : String)
  deriving DecidableEq

/-- `pak` is the buffer after a `Read` of `n` bytes. -/
structure ReadResult where
  pak : List UInt8
  n : Nat
  err : Option ReadError
  size : pak.length = chunkSize
  bound : n ≤ chunkSize

def ReadResult.data (r : ReadResult) : List UInt8 := r.pak.take r.n

@[simp] theorem ReadResult.data_length (r : ReadResult) : r.data.length = r.n := by
  rw [data, List.length_take, r.size]
  exact Nat.min_eq_left r.bound

/-- A read that finds these bytes. -/
def ReadResult.of (data : List UInt8) (err : Option ReadError) (h : data.length ≤ chunkSize) :
    ReadResult where
  pak := data ++ List.replicate (chunkSize - data.length) 0
  n := data.length
  err := err
  size := by
    rw [List.length_append, List.length_replicate]
    exact Nat.add_sub_cancel' h
  bound := h

@[simp] theorem ReadResult.of_data {data : List UInt8} {err : Option ReadError}
    (h : data.length ≤ chunkSize) : (ReadResult.of data err h).data = data :=
  List.take_left

/-- All reads that are made, or would be. -/
structure Reader where
  read : Nat → ReadResult
  afterEOF : ∀ i, (read i).err = some .EOF → (read (i + 1)).n = 0 ∧ (read (i + 1)).err = some .EOF

namespace Reader

/-- These reads, and then the end of the body. -/
def of (reads : List ReadResult) (hreads : ∀ r ∈ reads, r.err ≠ some .EOF) : Reader where
  read i := reads[i]?.getD (.of [] (some .EOF) (Nat.zero_le _))
  afterEOF := by
    intro i hi
    have hover : reads.length ≤ i := by
      by_contra hin
      rw [not_le] at hin
      rw [List.getElem?_eq_getElem hin] at hi
      exact hreads _ (List.getElem_mem hin) hi
    rw [List.getElem?_eq_none (Nat.le_succ_of_le hover)]
    exact ⟨rfl, rfl⟩

/-- The bytes of the first `k` reads. -/
def upTo (reader : Reader) (k : Nat) : List UInt8 :=
  (List.range k).flatMap fun i => (reader.read i).data

/-- The reads before this one bring bytes. -/
def GivesBytes (reader : Reader) (k : Nat) : Prop := ∀ i < k, (reader.read i).n ≠ 0

/-- The first read that brings no bytes. -/
def StopsAt (reader : Reader) (k : Nat) : Prop :=
  reader.GivesBytes k ∧ (reader.read k).n = 0

/-- The first error of the reads, and where it is. -/
def FirstError (reader : Reader) (e : Nat) (err : ReadError) : Prop :=
  (∀ i < e, (reader.read i).err = none) ∧ (reader.read e).err = some err

theorem upTo_succ (reader : Reader) (k : Nat) :
    reader.upTo (k + 1) = reader.upTo k ++ (reader.read k).data := by
  rw [upTo, List.range_succ, List.flatMap_append, List.flatMap_singleton]
  rfl

theorem stopsAt_unique {reader : Reader} {k other : Nat} (hk : reader.StopsAt k)
    (hother : reader.StopsAt other) : k = other := by
  rcases Nat.lt_trichotomy k other with hlt | heq | hgt
  · exact absurd hk.2 (hother.1 k hlt)
  · exact heq
  · exact absurd hother.2 (hk.1 other hgt)

theorem firstError_unique {reader : Reader} {e other : Nat} {err error : ReadError}
    (he : reader.FirstError e err) (hother : reader.FirstError other error) :
    e = other ∧ err = error := by
  have hsame : e = other := by
    rcases Nat.lt_trichotomy e other with hlt | heq | hgt
    · have hnone := hother.1 e hlt
      rw [he.2] at hnone
      cases hnone
    · exact heq
    · have hnone := he.1 other hgt
      rw [hother.2] at hnone
      cases hnone
  subst hsame
  exact ⟨rfl, Option.some.inj (he.2.symm.trans hother.2)⟩

theorem upTo_length_le (reader : Reader) {k last : Nat} (hle : k ≤ last) :
    (reader.upTo k).length ≤ (reader.upTo last).length := by
  induction last, hle using Nat.le_induction with
  | base => exact Nat.le_refl _
  | succ last hle ih =>
      rw [upTo_succ, List.length_append]
      omega

/-- Reads from `k` on that bring nothing. -/
theorem upTo_eq_iff (reader : Reader) {k last : Nat} (hle : k ≤ last) :
    reader.upTo last = reader.upTo k ↔ ∀ i, k ≤ i → i < last → (reader.read i).n = 0 := by
  induction last, hle using Nat.le_induction with
  | base =>
      refine iff_of_true rfl ?_
      intro i hi hlt
      omega
  | succ last hle ih =>
      have hlonger := reader.upTo_length_le hle
      rw [upTo_succ]
      constructor
      · intro hsame i hi hlt
        have hlength := congrArg List.length hsame
        rw [List.length_append, ReadResult.data_length] at hlength
        have hlast : (reader.read last).n = 0 := by omega
        have hdata : (reader.read last).data = [] := by
          rw [← List.length_eq_zero_iff, ReadResult.data_length, hlast]
        rw [hdata, List.append_nil] at hsame
        rcases Nat.lt_succ_iff_lt_or_eq.mp hlt with hbefore | rfl
        · exact ih.mp hsame i hi hbefore
        · exact hlast
      · intro hempty
        have hdata : (reader.read last).data = [] := by
          rw [← List.length_eq_zero_iff, ReadResult.data_length]
          exact hempty last hle (Nat.lt_succ_self last)
        rw [hdata, List.append_nil]
        exact ih.mpr fun i hi hlt => hempty i hi (Nat.lt_succ_of_lt hlt)

/-- The end of the body is not reported before the reads stop bringing bytes. -/
theorem stops_before_EOF {reader : Reader} {k e : Nat} (hk : reader.GivesBytes k)
    (he : reader.FirstError e .EOF) : k ≤ e + 1 := by
  by_contra hlate
  exact hk (e + 1) (by omega) (reader.afterEOF e he.2).1

end Reader

end GitRpc.Frontend
