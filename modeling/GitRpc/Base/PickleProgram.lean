import GitRpc.Library.Simulations
import GitRpc.Base.PickleImages

/-!
Programs over any number of pickles. What such a program does is told without
memory: a pickle is a header size, the bytes of its payload, and the place of
its next field. The allocations follow this, with every write and read inside
of them, as long as a payload stays below 4 GiB.
-/

namespace GitRpc.Base

open Library.Allocations Library.LittleEndian Library.Simulations Library.Runs

section Copies

variable {pickle other : Pickle} {block : Block UInt8} {bytes : List UInt8}

/-- Header and payload, copied to an allocation with room for them. -/
theorem Readable.copyFrom (h : Readable other block bytes) (pickle : Pickle) {dest : Block UInt8}
    (hheader : pickle.header = some dest) (hsize : pickle.headerSize = other.headerSize)
    (hroom : dest.length = pickle.headerSize + pickle.capacityAfterHeader)
    (hfits : bytes.length ≤ pickle.capacityAfterHeader)
    (hcapacity : pickle.capacityAfterHeader ≤ 2 ^ 34) :
    ∃ copied, pickle.copyFrom block (sizeT (other.headerSize + bytes.length)) =
        some { pickle with header := some copied } ∧
      Owned { pickle with header := some copied, writeOffset := other.writeOffset } copied
        bytes := by
  have hsmall := h.headerSmall
  have hbytes := h.payloadSmall
  have hheaderRoom := h.headerRoom
  have hcount : sizeT (other.headerSize + bytes.length) = other.headerSize + bytes.length :=
    sizeT_of_lt (by omega)
  obtain ⟨copied, hcopy⟩ : ∃ copied,
      copyFront block dest (other.headerSize + bytes.length) = some copied :=
    copyFront_exists (load_bound h.payload) (by omega)
  refine ⟨copied, ?_, ?_⟩
  · simp only [Pickle.copyFrom, hheader, hcount, hcopy, Option.bind_eq_bind, Option.bind_some]
  · exact {
      header := rfl
      size := by
        rw [load_copyFront hcopy (by omega)]
        exact h.size
      payload := by
        simp only [hsize]
        rw [load_copyFront hcopy (Nat.le_refl _)]
        exact h.payload
      headerRoom := by simp only [hsize]; exact hheaderRoom
      headerSmall := by simp only [hsize]; exact hsmall
      payloadSmall := hbytes
      offset := h.offset
      room := (length_copyFront hcopy).trans hroom
      capacity := hcapacity }

/-- A resize leaves an allocation of the length the pickle takes it to have. -/
theorem resize_room (pickle : Pickle) {newCapacity : Nat}
    (hwritable : pickle.capacityAfterHeader ≠ kCapacityReadOnly)
    (hheader : pickle.headerSize ≤ 2 ^ 31) (hsmall : newCapacity ≤ 2 ^ 34 - 64) :
    ∃ dest, pickle.resize newCapacity = some { pickle with
        header := some dest, capacityAfterHeader := alignInt newCapacity kPayloadUnit } ∧
      dest.length = pickle.headerSize + alignInt newCapacity kPayloadUnit ∧
      newCapacity ≤ alignInt newCapacity kPayloadUnit ∧
      alignInt newCapacity kPayloadUnit ≤ 2 ^ 34 := by
  have hunit := alignInt_unit (show newCapacity < 2 ^ 63 by omega)
  have hsize : sizeT (pickle.headerSize + alignInt newCapacity kPayloadUnit) =
      pickle.headerSize + alignInt newCapacity kPayloadUnit := sizeT_of_lt (by omega)
  refine ⟨realloc (pickle.header.getD []) (pickle.headerSize + alignInt newCapacity kPayloadUnit),
    ?_, length_realloc _ _, hunit.1, by omega⟩
  rw [Pickle.resize, ite_cond_eq_false _ _ (eq_false hwritable), hsize]

/-- A copy owns its allocation, and goes on writing where the other one does. -/
theorem Readable.copy (h : Readable other block bytes) :
    ∃ next copied, Pickle.copy other = some next ∧ Owned next copied bytes ∧
      next.headerSize = other.headerSize ∧ next.writeOffset = other.writeOffset := by
  have hsmall := h.headerSmall
  have hbytes := h.payloadSmall
  have hcount : sizeT (other.headerSize + bytes.length) = other.headerSize + bytes.length :=
    sizeT_of_lt (by omega)
  obtain ⟨dest, hresize, hroom, hlarge, hcapacity⟩ :=
    resize_room ⟨none, other.headerSize, 0, other.writeOffset⟩ (by simp [kCapacityReadOnly])
      hsmall (show other.headerSize + bytes.length ≤ 2 ^ 34 - 64 by omega)
  obtain ⟨copied, hcopy, howned⟩ :=
    h.copyFrom ⟨some dest, other.headerSize,
      alignInt (other.headerSize + bytes.length) kPayloadUnit, other.writeOffset⟩
      rfl rfl hroom (by simp only; omega) hcapacity
  rw [hcount] at hcopy
  refine ⟨_, copied, ?_, howned, rfl, rfl⟩
  simp only [Pickle.copy, h.header, h.payloadSize, hcount, hresize, hcopy, Option.bind_eq_bind,
    Option.bind_some]

theorem kept_headerSize (pickle other : Pickle) :
    (pickle.kept other).headerSize = other.headerSize := by
  have hheader (kept : Pickle) : (if kept.headerSize ≠ other.headerSize then
      { kept with header := none, headerSize := other.headerSize } else kept).headerSize =
        other.headerSize := by
    split
    case isTrue => rfl
    case isFalse hsame => exact not_not.mp hsame
  exact hheader _

theorem kept_writable (pickle other : Pickle) :
    (pickle.kept other).capacityAfterHeader ≠ kCapacityReadOnly := by
  have hzero : (0 : Nat) ≠ kCapacityReadOnly := by simp [kCapacityReadOnly]
  simp only [Pickle.kept, ne_eq, ite_not]
  split <;> split <;> first | exact hzero | assumption

/-- An assignment does what a copy does, whatever was assigned to. -/
theorem Readable.assign (h : Readable other block bytes) (pickle : Pickle) :
    ∃ next copied, Pickle.assign pickle other = some next ∧ Owned next copied bytes ∧
      next.headerSize = other.headerSize ∧ next.writeOffset = other.writeOffset := by
  have hsmall := h.headerSmall
  have hbytes := h.payloadSmall
  have hheader := kept_headerSize pickle other
  obtain ⟨dest, hresize, hroom, hlarge, hcapacity⟩ :=
    resize_room (pickle.kept other) (kept_writable pickle other) (by rw [hheader]; exact hsmall)
      (show bytes.length ≤ 2 ^ 34 - 64 by omega)
  obtain ⟨copied, hcopy, howned⟩ :=
    h.copyFrom { pickle.kept other with
      header := some dest, capacityAfterHeader := alignInt bytes.length kPayloadUnit }
      rfl hheader hroom hlarge hcapacity
  refine ⟨_, copied, ?_, howned, hheader, rfl⟩
  simp only [Pickle.assign, h.header, h.payloadSize, hresize, hcopy, Option.bind_eq_bind,
    Option.bind_some]

end Copies

/-- What a program can do to its pickles. -/
inductive Op where
  | create (x : Nat) (headerSize : BitVec 32)
  | data (x : Nat) (bytes : List UInt8)
  | copy (x y : Nat)
  | assign (x y : Nat)
  | reserve (x : Nat) (length : Nat)
  | write (x : Nat) (value : Value)

/-- The pickles by their variables. -/
abbrev Pickles := Nat → Option Pickle

/-- One operation on the pickles. A write that returns false is no step. -/
def stepPickles (s : Pickles) : Op → Option Pickles
  | .create x headerSize =>
      (Pickle.ofHeaderSize headerSize).map fun next => Function.update s x (some next)
  | .data x bytes =>
      (Pickle.ofData (bytes.map some) (asInt bytes.length)).map fun next =>
        Function.update s x (some next)
  | .copy x y => do
      let next ← (← s y).copy
      some (Function.update s x (some next))
  | .assign x y => do
      let pickle ← s x
      let other ← s y
      let next ← if x = y then some pickle else pickle.assign other
      some (Function.update s x (some next))
  | .reserve x length => do
      let next ← (← s x).reserve length
      some (Function.update s x (some next))
  | .write x value => do
      let (written, next) ← value.write (← s x)
      if written then some (Function.update s x (some next)) else none

/-- A pickle without its memory. -/
structure Contents where
  headerSize : Nat
  bytes : List UInt8
  writeOffset : Nat
  readOnly : Bool

/-- The contents of data that is an image. -/
def contentsOf (bytes : List UInt8) : Option Contents :=
  let payload := ofBytes (bytes.take sizeofHeader)
  if sizeofHeader ≤ bytes.length ∧ bytes.length < 2 ^ 31 ∧ payload < bytes.length ∧
      (bytes.length - payload) % 4 = 0 then
    some ⟨bytes.length - payload, bytes.drop (bytes.length - payload), 0, true⟩
  else none

/-- The same operations on the contents. There is no step where the documentation allows
none: too small a header, data that is no image, a write to data of the caller, a value
whose length is no `int`, a payload of 4 GiB. -/
def stepContents (s : Nat → Option Contents) : Op → Option (Nat → Option Contents)
  | .create x headerSize =>
      if 4 ≤ headerSize.toInt then
        some (Function.update s x (some ⟨roundedHeader headerSize, [], 0, false⟩))
      else none
  | .data x bytes =>
      (contentsOf bytes).map fun contents => Function.update s x (some contents)
  | .copy x y => (s y).map fun other => Function.update s x (some { other with readOnly := false })
  | .assign x y => do
      let contents ← s x
      let other ← s y
      some (Function.update s x
        (some (if x = y then contents else { other with readOnly := false })))
  | .reserve x length => do
      let contents ← s x
      if contents.writeOffset + length + 3 < 2 ^ 32 then some s else none
  | .write x value => do
      let contents ← s x
      if contents.readOnly = false ∧ value.Fits ∧
          contents.writeOffset + value.encode.length < 2 ^ 32 then
        some (Function.update s x (some { contents with
          bytes := contents.bytes.take contents.writeOffset ++ value.encode
          writeOffset := contents.writeOffset + value.encode.length }))
      else none

/-- The memory of a pickle follows its contents. -/
structure Holds (pickle : Pickle) (contents : Contents) : Prop where
  headerSize : pickle.headerSize = contents.headerSize
  writeOffset : pickle.writeOffset = contents.writeOffset
  readable : ∃ block, Readable pickle block contents.bytes
  owned : contents.readOnly = false → ∃ block, Owned pickle block contents.bytes
  callers : contents.readOnly = true → pickle.capacityAfterHeader = kCapacityReadOnly

section Steps

variable {pickle : Pickle} {block : Block UInt8} {bytes : List UInt8} {contents : Contents}

theorem Owned.holds (h : Owned pickle block bytes) :
    Holds pickle ⟨pickle.headerSize, bytes, pickle.writeOffset, false⟩ :=
  ⟨rfl, rfl, ⟨block, h.toReadable⟩, fun _ => ⟨block, h⟩, fun hreadOnly => by contradiction⟩

theorem ofData_holds (hcontents : contentsOf bytes = some contents) :
    ∃ next, Pickle.ofData (bytes.map some) (asInt bytes.length) = some next ∧
      Holds next contents := by
  unfold contentsOf at hcontents
  simp only [Option.ite_none_right_eq_some, Option.some.injEq] at hcontents
  obtain ⟨⟨hroom, hsmall, hlt, haligned⟩, hcontents⟩ := hcontents
  obtain ⟨image, himage, hpayload⟩ := image_of_front hroom hlt haligned
  obtain ⟨next, hnext, hheader, hreadable⟩ := image.ofData haligned (by rw [himage]; exact hsmall)
  rw [himage] at hnext
  rw [hpayload] at hreadable
  obtain ⟨hsize, hbound⟩ := readPayloadSize_front hroom
  have hspec := ofData_spec hsmall hroom hbound hsize
  rw [hnext, ite_cond_eq_true _ _ (eq_true ⟨hlt, haligned⟩)] at hspec
  cases hspec
  cases hcontents
  exact ⟨_, hnext, rfl, rfl, ⟨_, hreadable⟩, fun hwritable => by contradiction, fun _ => rfl⟩

/-- Room that is reserved changes nothing else. -/
theorem Holds.reserve (h : Holds pickle contents) {length : Nat}
    (hsmall : contents.writeOffset + length + 3 < 2 ^ 32) :
    ∃ next, pickle.reserve length = some next ∧ Holds next contents := by
  have halign : alignInt length sizeofHeader = length + (4 - length % 4) % 4 :=
    alignInt_four (by omega)
  have hoffset := h.writeOffset
  have hnewSize : sizeT (pickle.writeOffset + (length + (4 - length % 4) % 4)) =
      pickle.writeOffset + (length + (4 - length % 4) % 4) := sizeT_of_lt (by omega)
  simp only [Pickle.reserve, halign, hnewSize]
  cases hreadOnly : contents.readOnly with
  | true =>
      have hcapacity := h.callers hreadOnly
      unfold kCapacityReadOnly at hcapacity
      refine ⟨pickle, ?_, h⟩
      rw [Pickle.resizeFor, ite_cond_eq_false _ _ (eq_false (by omega))]
  | false =>
      obtain ⟨block, howned⟩ := h.owned hreadOnly
      have hgrows : pickle.capacityAfterHeader < pickle.writeOffset + (length + (4 - length % 4) % 4) →
          sizeT (pickle.capacityAfterHeader * 2 +
              (pickle.writeOffset + (length + (4 - length % 4) % 4))) =
            pickle.capacityAfterHeader * 2 +
              (pickle.writeOffset + (length + (4 - length % 4) % 4)) :=
        fun hgrows => sizeT_of_lt (by omega)
      obtain ⟨next, grown, hresize, hnext, -, hheader, hkept, -⟩ :=
        howned.resizeFor (pickle.writeOffset + (length + (4 - length % 4) % 4))
          (sizeT (pickle.capacityAfterHeader * 2 +
            (pickle.writeOffset + (length + (4 - length % 4) % 4))))
          (fun hcapacity => by rw [hgrows hcapacity]; omega)
      exact ⟨next, hresize, hheader.trans h.headerSize, hkept.trans hoffset,
        ⟨grown, hnext.toReadable⟩, fun _ => ⟨grown, hnext⟩, fun htrue => by
          rw [hreadOnly] at htrue
          contradiction⟩

theorem Holds.write (h : Holds pickle contents) {value : Value}
    (hwritable : contents.readOnly = false) (hfits : value.Fits)
    (hsmall : contents.writeOffset + value.encode.length < 2 ^ 32) :
    ∃ next, value.write pickle = some (true, next) ∧ Holds next { contents with
      bytes := contents.bytes.take contents.writeOffset ++ value.encode
      writeOffset := contents.writeOffset + value.encode.length } := by
  have hoffset := h.writeOffset
  obtain ⟨block, howned⟩ := h.owned hwritable
  obtain ⟨next, hwrite, hwrote⟩ :=
    Value.writes hfits pickle block contents.bytes howned (by omega)
  obtain ⟨grown, hnext⟩ := hwrote.owned
  rw [hoffset] at hnext
  refine ⟨next, hwrite, ?_⟩
  exact {
    headerSize := hwrote.headerSize.trans h.headerSize
    writeOffset := by rw [hwrote.offset, hoffset]
    readable := ⟨grown, hnext.toReadable⟩
    owned := fun _ => ⟨grown, hnext⟩
    callers := fun htrue => by
      simp only [hwritable] at htrue
      contradiction }

theorem Holds.copied (h : Holds pickle contents) {next : Pickle} {copied : Block UInt8}
    (hnext : Owned next copied contents.bytes) (hheader : next.headerSize = pickle.headerSize)
    (hoffset : next.writeOffset = pickle.writeOffset) :
    Holds next { contents with readOnly := false } :=
  ⟨hheader.trans h.headerSize, hoffset.trans h.writeOffset, ⟨copied, hnext.toReadable⟩,
    fun _ => ⟨copied, hnext⟩, fun hreadOnly => by contradiction⟩

end Steps

/-- The pickles follow the contents, whatever the operation. -/
theorem pickles_follow : Follows stepPickles stepContents (Tables Holds) := by
  intro s spec op spec' hrelated hstep
  cases op with
  | create x headerSize =>
      simp only [stepContents, Option.ite_none_right_eq_some, Option.some.injEq] at hstep
      obtain ⟨hroom, rfl⟩ := hstep
      obtain ⟨next, block, hnext, howned, hheader, hoffset⟩ := ofHeaderSize_owned hroom
      have hholds := howned.holds
      rw [hheader, hoffset] at hholds
      exact ⟨_, by rw [stepPickles, hnext, Option.map_some], hrelated.update hholds⟩
  | data x bytes =>
      obtain ⟨contents, hcontents, rfl⟩ := Option.map_eq_some_iff.mp hstep
      obtain ⟨next, hnext, hholds⟩ := ofData_holds hcontents
      exact ⟨_, by rw [stepPickles, hnext, Option.map_some], hrelated.update hholds⟩
  | copy x y =>
      obtain ⟨other, hother, rfl⟩ := Option.map_eq_some_iff.mp hstep
      obtain ⟨pickle, hpickle, hholds⟩ := hrelated y other hother
      obtain ⟨block, hreadable⟩ := hholds.readable
      obtain ⟨next, copied, hcopy, howned, hheader, hoffset⟩ := hreadable.copy
      exact ⟨_, by simp [stepPickles, hpickle, hcopy],
        hrelated.update (hholds.copied howned hheader hoffset)⟩
  | assign x y =>
      obtain ⟨contents, hcontents, hrest⟩ := Option.bind_eq_some_iff.mp hstep
      obtain ⟨other, hother, hspec⟩ := Option.bind_eq_some_iff.mp hrest
      cases hspec
      obtain ⟨pickle, hpickle, hholds⟩ := hrelated x contents hcontents
      obtain ⟨source, hsource, hsourceHolds⟩ := hrelated y other hother
      rcases eq_or_ne x y with rfl | hne
      · refine ⟨Function.update s x (some pickle), by simp [stepPickles, hpickle], ?_⟩
        rw [ite_cond_eq_true _ _ (eq_true rfl)]
        exact hrelated.update hholds
      · obtain ⟨block, hreadable⟩ := hsourceHolds.readable
        obtain ⟨next, copied, hassign, howned, hheader, hoffset⟩ := hreadable.assign pickle
        refine ⟨Function.update s x (some next),
          by simp [stepPickles, hpickle, hsource, hne, hassign], ?_⟩
        rw [ite_cond_eq_false _ _ (eq_false hne)]
        exact hrelated.update (hsourceHolds.copied howned hheader hoffset)
  | reserve x length =>
      obtain ⟨contents, hcontents, hrest⟩ := Option.bind_eq_some_iff.mp hstep
      simp only [Option.ite_none_right_eq_some, Option.some.injEq] at hrest
      obtain ⟨hsmall, rfl⟩ := hrest
      obtain ⟨pickle, hpickle, hholds⟩ := hrelated x contents hcontents
      obtain ⟨next, hreserve, hnext⟩ := hholds.reserve hsmall
      refine ⟨Function.update s x (some next), by simp [stepPickles, hpickle, hreserve], ?_⟩
      have hupdate := hrelated.update (i := x) hnext
      rwa [← hcontents, Function.update_eq_self] at hupdate
  | write x value =>
      obtain ⟨contents, hcontents, hrest⟩ := Option.bind_eq_some_iff.mp hstep
      simp only [Option.ite_none_right_eq_some, Option.some.injEq] at hrest
      obtain ⟨⟨hwritable, hfits, hsmall⟩, rfl⟩ := hrest
      obtain ⟨pickle, hpickle, hholds⟩ := hrelated x contents hcontents
      obtain ⟨next, hwrite, hnext⟩ := hholds.write hwritable hfits hsmall
      exact ⟨_, by simp [stepPickles, hpickle, hwrite], hrelated.update hnext⟩

/-- Every program that keeps to the documentation runs without a write or a read outside of
an allocation, and in the end each pickle sends, and gives its readers, its contents. -/
theorem program_runs {ops : List Op} {finish : Nat → Option Contents}
    (hrun : exec stepContents (fun _ => none) ops = some finish) :
    ∃ s, exec stepPickles (fun _ => none) ops = some s ∧
      ∀ x contents, finish x = some contents →
        ∃ pickle data iter, s x = some pickle ∧ pickle.sent = some data ∧
          data.length = contents.headerSize + contents.bytes.length ∧
          load data contents.headerSize contents.bytes.length = some contents.bytes ∧
          PickleIterator.ofPickle pickle = some iter ∧
          ∀ kinds, ∃ last, readAll kinds iter = some ((decodeAll kinds contents.bytes).1, last) := by
  obtain ⟨s, hs, htables⟩ := pickles_follow.exec (tables_empty Holds) hrun
  refine ⟨s, hs, fun x contents hcontents => ?_⟩
  obtain ⟨pickle, hpickle, hholds⟩ := htables x contents hcontents
  obtain ⟨block, hreadable⟩ := hholds.readable
  obtain ⟨iter, hiter, hsees⟩ := hreadable.ofPickle
  have hsent := hreadable.sent
  have hbound := load_bound hreadable.payload
  have hpayload := hreadable.payload
  rw [hholds.headerSize] at hsent hbound hpayload
  refine ⟨pickle, _, iter, hpickle, hsent, List.length_take_of_le hbound, ?_, hiter, ?_⟩
  · rw [load_take (Nat.le_refl _)]
    exact hpayload
  · intro kinds
    obtain ⟨last, hread, -⟩ := readAll_decodeAll kinds hsees
    exact ⟨last, hread⟩

theorem overwritten_copy_runs :
    ∃ s, exec stepPickles (fun _ => none)
        [.data 0 [4, 0, 0, 0, 9, 0, 0, 0], .copy 1 0, .write 1 (.bool true)] = some s ∧
      ∀ (x : Nat) (contents : Contents),
        (Function.update (Function.update (Function.update (fun _ => none)
          0 (some ⟨4, [9, 0, 0, 0], 0, true⟩))
          1 (some ⟨4, [9, 0, 0, 0], 0, false⟩))
          1 (some ⟨4, [1, 0, 0, 0], 4, false⟩) : Nat → Option Contents) x = some contents →
        ∃ pickle data iter, s x = some pickle ∧ pickle.sent = some data ∧
          data.length = contents.headerSize + contents.bytes.length ∧
          load data contents.headerSize contents.bytes.length = some contents.bytes ∧
          PickleIterator.ofPickle pickle = some iter ∧
          ∀ kinds, ∃ last,
            readAll kinds iter = some ((decodeAll kinds contents.bytes).1, last) :=
  program_runs rfl

end GitRpc.Base
