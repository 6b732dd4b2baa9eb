import GitRpc.Base.PickleRoundTrip

/-!
The bytes of a pickle outside of it: what another pickle accepts as its data,
and where one pickle ends in a stream of them.
-/

namespace GitRpc.Base

open Library.Allocations Library.LittleEndian

/-- What a pickle with a header of this size leaves on the wire. -/
structure Image (headerSize : Nat) where
  header : List UInt8
  payload : List UInt8
  headerLength : header.length = headerSize
  room : sizeofHeader ≤ headerSize
  size : header.take sizeofHeader = toBytes sizeofHeader payload.length
  small : payload.length < 2 ^ 32

namespace Image

variable {headerSize : Nat} (image : Image headerSize)

def bytes : List UInt8 := image.header ++ image.payload

@[simp] theorem length_bytes :
    image.bytes.length = headerSize + image.payload.length := by
  rw [bytes, List.length_append, image.headerLength]

/-- The size stands in front, whatever is behind the image. -/
theorem load_size (rest : Block UInt8) :
    load (image.bytes.map some ++ rest) 0 sizeofHeader =
      some (toBytes sizeofHeader image.payload.length) := by
  refine load_eq_some_iff.mpr ⟨length_toBytes _ _, [],
    (image.header.drop sizeofHeader ++ image.payload).map some ++ rest, rfl, ?_⟩
  rw [← image.size, List.nil_append, ← List.append_assoc, ← List.map_append,
    ← List.append_assoc, List.take_append_drop, bytes]

theorem readPayloadSize_append (rest : Block UInt8) :
    readPayloadSize (image.bytes.map some ++ rest) = some image.payload.length := by
  have hsmall : image.payload.length < 256 ^ sizeofHeader := image.small
  rw [readPayloadSize, image.load_size rest, Option.map_some, ofBytes_toBytes_of_lt hsmall]

theorem load_payload :
    load (image.bytes.map some) headerSize image.payload.length = some image.payload :=
  load_eq_some_iff.mpr ⟨rfl, image.header.map some, [], by simp [image.headerLength], by
    simp [bytes]⟩

end Image

section OfData

variable {data : Block UInt8} {length payload : Nat}

/-- The header is what the payload leaves of the data, if that is a whole number of words. -/
theorem ofData_spec (hlength : length < 2 ^ 31) (hroom : 4 ≤ length)
    (hpayload : payload < 2 ^ 32) (hsize : readPayloadSize data = some payload) :
    Pickle.ofData data (asInt length) = some (
      if payload < length ∧ (length - payload) % 4 = 0 then
        ⟨some data, length - payload, kCapacityReadOnly, 0⟩
      else ⟨none, 0, kCapacityReadOnly, 0⟩) := by
  have hvalue : (sizeofHeader : Int) ≤ (asInt length).toInt := by
    rw [asInt_toInt hlength]
    unfold sizeofHeader
    omega
  have hlengthNat : (asInt length).toNat = length := by
    rw [asInt, BitVec.toNat_ofNat]
    omega
  have hdifference : (asInt length - BitVec.ofNat 32 payload).toNat =
      (2 ^ 32 - payload + length) % 2 ^ 32 := by
    rw [BitVec.toNat_sub, hlengthNat, BitVec.toNat_ofNat, Nat.mod_eq_of_lt hpayload]
  simp only [Pickle.ofData, hvalue, if_true, hsize, Option.map_some, hdifference, hlengthNat,
    Option.bind_eq_bind, Option.bind_some, Option.some.injEq]
  rcases Nat.lt_or_ge length payload with hlong | hshort
  · have hlarge : length < (2 ^ 32 - payload + length) % 2 ^ 32 := by omega
    have halign : alignInt 0 sizeofHeader = 0 := rfl
    rw [ite_cond_eq_true _ _ (eq_true hlarge), halign]
    simp only [ne_eq, not_true_eq_false, if_false]
    rw [ite_cond_eq_true _ _ (eq_true trivial), ite_cond_eq_false _ _ (eq_false (by omega))]
  · have hexact : (2 ^ 32 - payload + length) % 2 ^ 32 = length - payload := by omega
    have hsmall : ¬length < length - payload := by omega
    have halign : alignInt (length - payload) sizeofHeader =
        length - payload + (4 - (length - payload) % 4) % 4 := alignInt_four (by omega)
    rw [hexact, ite_cond_eq_false _ _ (eq_false hsmall), halign]
    rcases Nat.eq_zero_or_pos ((length - payload) % 4) with haligned | hodd
    · have hsame : length - payload = length - payload + (4 - (length - payload) % 4) % 4 := by
        omega
      rw [ite_cond_eq_false _ _ (eq_false (not_not.mpr hsame))]
      rcases Nat.eq_zero_or_pos (length - payload) with hempty | hheader
      · rw [ite_cond_eq_true _ _ (eq_true hempty), ite_cond_eq_false _ _ (eq_false (by omega)),
          hempty]
      · rw [ite_cond_eq_false _ _ (eq_false (by omega)),
          ite_cond_eq_true _ _ (eq_true ⟨by omega, haligned⟩)]
    · have hother : length - payload ≠ length - payload + (4 - (length - payload) % 4) % 4 := by
        omega
      rw [ite_cond_eq_true _ _ (eq_true hother), ite_cond_eq_true _ _ (eq_true rfl),
        ite_cond_eq_false _ _ (eq_false (by omega))]

end OfData

section Null

/-- The iterator of a pickle whose data is not used. -/
def NullPayload (iter : PickleIterator) : Prop := iter.payload = none

/-- The read returns false, and leaves the payload null. -/
def ReturnsFalse {α : Type} (read : PickleIterator → Option (Option α × PickleIterator)) : Prop :=
  ∀ iter, NullPayload iter → ∃ next, read iter = some (none, next) ∧ NullPayload next

variable {α β : Type}

theorem ReturnsFalse.given {read : PickleIterator → Option (Option α × PickleIterator)}
    (h : ReturnsFalse read) (f : α → Option β) :
    ReturnsFalse fun iter => PickleIterator.given f (read iter) := by
  intro iter hnull
  obtain ⟨next, hread, hnext⟩ := h iter hnull
  exact ⟨next, by simp only [hread, PickleIterator.given, Option.map_some, Option.bind_none],
    hnext⟩

end Null

section Accept

variable {headerSize : Nat} {bytes : List UInt8}

/-- The size that stands in front of the data. -/
theorem readPayloadSize_front (hroom : sizeofHeader ≤ bytes.length) :
    readPayloadSize (bytes.map some) = some (ofBytes (bytes.take sizeofHeader)) ∧
      ofBytes (bytes.take sizeofHeader) < 2 ^ 32 := by
  have hload : load (bytes.map some) (0 + 0) sizeofHeader =
      some ((bytes.drop 0).take sizeofHeader) := load_part (load_whole bytes) (by omega)
  have hfront : load (bytes.map some) 0 sizeofHeader = some (bytes.take sizeofHeader) := hload
  have hlt := ofBytes_lt (bytes.take sizeofHeader)
  rw [length_of_load hfront] at hlt
  exact ⟨by rw [readPayloadSize, hfront, Option.map_some], hlt⟩

/-- The header size and the payload of data that is an image. -/
theorem Image.ofData (image : Image headerSize) (haligned : headerSize % 4 = 0)
    (hsmall : image.bytes.length < 2 ^ 31) :
    ∃ pickle, Pickle.ofData (image.bytes.map some) (asInt image.bytes.length) = some pickle ∧
      pickle.headerSize = headerSize ∧
      Readable pickle (image.bytes.map some) image.payload := by
  have hlength := image.length_bytes
  have hroom := image.room
  have hsize := image.readPayloadSize_append []
  rw [List.append_nil] at hsize
  unfold sizeofHeader at hroom
  have hspec := ofData_spec hsmall (by omega) image.small hsize
  have hheader : image.bytes.length - image.payload.length = headerSize := by omega
  rw [hheader, ite_cond_eq_true _ _ (eq_true ⟨by omega, haligned⟩)] at hspec
  refine ⟨_, hspec, rfl, ?_⟩
  have hfront := image.load_size []
  rw [List.append_nil] at hfront
  exact {
    header := rfl
    size := hfront
    payload := image.load_payload
    headerRoom := image.room
    headerSmall := by simp only; omega
    payloadSmall := image.small
    offset := Nat.zero_le _ }

/-- Data whose front leaves a header of whole words is an image. -/
theorem image_of_front (hroom : sizeofHeader ≤ bytes.length)
    (hlt : ofBytes (bytes.take sizeofHeader) < bytes.length)
    (haligned : (bytes.length - ofBytes (bytes.take sizeofHeader)) % 4 = 0) :
    ∃ image : Image (bytes.length - ofBytes (bytes.take sizeofHeader)), image.bytes = bytes ∧
      image.payload = bytes.drop (bytes.length - ofBytes (bytes.take sizeofHeader)) := by
  obtain ⟨-, hbound⟩ := readPayloadSize_front hroom
  have hfour : (bytes.take sizeofHeader).length = sizeofHeader := List.length_take_of_le hroom
  have hpayload : (bytes.drop (bytes.length - ofBytes (bytes.take sizeofHeader))).length =
      ofBytes (bytes.take sizeofHeader) := by
    rw [List.length_drop]
    omega
  have hheaderRoom : sizeofHeader ≤ bytes.length - ofBytes (bytes.take sizeofHeader) := by
    have hword : sizeofHeader = 4 := rfl
    omega
  have hword : toBytes (bytes.take sizeofHeader).length (ofBytes (bytes.take sizeofHeader)) =
      bytes.take sizeofHeader := toBytes_ofBytes _
  rw [hfour] at hword
  exact ⟨{
    header := bytes.take (bytes.length - ofBytes (bytes.take sizeofHeader))
    payload := bytes.drop (bytes.length - ofBytes (bytes.take sizeofHeader))
    headerLength := List.length_take_of_le (Nat.sub_le _ _)
    room := hheaderRoom
    size := by rw [hpayload, hword, List.take_take, Nat.min_eq_left hheaderRoom]
    small := by rw [hpayload]; exact hbound }, List.take_append_drop _ _, rfl⟩

end Accept

section Sent

variable {pickle : Pickle} {block : Block UInt8} {bytes : List UInt8}

/-- The memory that `data()` and `size()` give. -/
def Pickle.sent (pickle : Pickle) : Option (Block UInt8) := do
  let block ← pickle.header
  let size ← pickle.size
  some (block.take size)

theorem Readable.sent (h : Readable pickle block bytes) :
    pickle.sent = some (block.take (pickle.headerSize + bytes.length)) := by
  have hheader := h.headerSmall
  have hbytes := h.payloadSmall
  have hsize : sizeT (pickle.headerSize + bytes.length) = pickle.headerSize + bytes.length :=
    sizeT_of_lt (by omega)
  simp [Pickle.sent, Pickle.size, h.header, h.payloadSize, hsize]

/-- A pickle made of what another one sent has the header size and the payload of this one. -/
theorem Readable.received (h : Readable pickle block bytes)
    (haligned : pickle.headerSize % 4 = 0) (hsmall : pickle.headerSize + bytes.length < 2 ^ 31) :
    ∃ data received, pickle.sent = some data ∧
      Pickle.ofData data (asInt data.length) = some received ∧ Readable received data bytes ∧
      received.headerSize = pickle.headerSize := by
  have hroom := h.headerRoom
  have hbound := load_bound h.payload
  have hword : sizeofHeader = 4 := rfl
  have hlength : (block.take (pickle.headerSize + bytes.length)).length =
      pickle.headerSize + bytes.length := List.length_take_of_le hbound
  have hfront : load (block.take (pickle.headerSize + bytes.length)) 0 sizeofHeader =
      some (toBytes sizeofHeader bytes.length) := by
    rw [load_take (by omega)]
    exact h.size
  have hsize : readPayloadSize (block.take (pickle.headerSize + bytes.length)) =
      some bytes.length := by
    rw [readPayloadSize, hfront, Option.map_some]
    exact congrArg some (ofBytes_toBytes_of_lt h.payloadSmall)
  have hspec := ofData_spec hsmall (by omega) h.payloadSmall hsize
  rw [Nat.add_sub_cancel, ite_cond_eq_true _ _ (eq_true ⟨by omega, haligned⟩)] at hspec
  refine ⟨_, ⟨some (block.take (pickle.headerSize + bytes.length)), pickle.headerSize,
    kCapacityReadOnly, 0⟩, h.sent, by rw [hlength]; exact hspec, ?_, rfl⟩
  exact {
    header := rfl
    size := hfront
    payload := by
      rw [load_take (Nat.le_refl _)]
      exact h.payload
    headerRoom := hroom
    headerSmall := h.headerSmall
    payloadSmall := h.payloadSmall
    offset := Nat.zero_le _ }

/-- Values that were written to a new pickle, whatever its header size, are read back from
it, and from a pickle made of what it sends, with nothing behind them. -/
theorem values_read_back {headerSize : BitVec 32} {values : List Value}
    (hroom : 4 ≤ headerSize.toInt) (hfits : ∀ value ∈ values, value.Fits)
    (hsmall : (encodeAll values).length < 2 ^ 32) :
    ∃ empty pickle, Pickle.ofHeaderSize headerSize = some empty ∧
      writeAll values empty = some (true, pickle) ∧
      (∃ iter last, PickleIterator.ofPickle pickle = some iter ∧
        readAll (values.map Value.kind) iter =
          some (values.map fun value => some (.value value), last) ∧
        last.readIndex = last.endIndex) ∧
      (roundedHeader headerSize + (encodeAll values).length < 2 ^ 31 →
        ∃ data received iter last, pickle.sent = some data ∧
          Pickle.ofData data (asInt data.length) = some received ∧
          PickleIterator.ofPickle received = some iter ∧
          readAll (values.map Value.kind) iter =
            some (values.map fun value => some (.value value), last) ∧
          last.readIndex = last.endIndex) := by
  obtain ⟨empty, pickle, block, hempty, hwrite, howned, hheader⟩ :=
    writeAll_new hroom hfits hsmall
  refine ⟨empty, pickle, hempty, hwrite, ?_, fun hwire => ?_⟩
  · obtain ⟨iter, hiter, hsees⟩ := howned.toReadable.ofPickle
    obtain ⟨last, hread⟩ := hsees.reads_values hfits
    exact ⟨iter, last, hiter, hread⟩
  · have haligned : pickle.headerSize % 4 = 0 := by
      rw [hheader]
      exact roundedHeader_aligned headerSize
    obtain ⟨data, received, hsent, hreceived, hreadable, -⟩ :=
      howned.toReadable.received haligned (by rw [hheader]; exact hwire)
    obtain ⟨iter, hiter, hsees⟩ := hreadable.ofPickle
    obtain ⟨last, hread⟩ := hsees.reads_values hfits
    exact ⟨data, received, iter, last, hsent, hreceived, hiter, hread⟩

theorem mixed_values_read_back :
    ∃ empty pickle, Pickle.ofHeaderSize 6 = some empty ∧
      writeAll [.string [104, 105], .bool true, .wstring [233], .uint16 7] empty =
        some (true, pickle) ∧
      (∃ iter last, PickleIterator.ofPickle pickle = some iter ∧
        readAll [.string, .bool, .wstring, .uint16] iter =
          some ([some (.value (.string [104, 105])), some (.value (.bool true)),
            some (.value (.wstring [233])), some (.value (.uint16 7))], last) ∧
        last.readIndex = last.endIndex) ∧
      (roundedHeader 6 + (encodeAll
          [.string [104, 105], .bool true, .wstring [233], .uint16 7]).length < 2 ^ 31 →
        ∃ data received iter last, pickle.sent = some data ∧
          Pickle.ofData data (asInt data.length) = some received ∧
          PickleIterator.ofPickle received = some iter ∧
          readAll [.string, .bool, .wstring, .uint16] iter =
            some ([some (.value (.string [104, 105])), some (.value (.bool true)),
              some (.value (.wstring [233])), some (.value (.uint16 7))], last) ∧
          last.readIndex = last.endIndex) :=
  values_read_back (by decide) (by simp [Value.Fits]) (by decide)

end Sent

section FindNext

variable {headerSize : Nat}

/-- `FindNext`: where the pickle ends that the range starts with, and null when the range
does not hold all of it. -/
def findNext (headerSize : Nat) (range : Block UInt8) : Option (Option Nat) :=
  if range.length < sizeofHeader then some none
  else do
    let payload ← readPayloadSize range
    if range.length < headerSize ∨ range.length - headerSize < payload then some none
    else some (some (headerSize + payload))

/-- An image is found, whatever is behind it. -/
theorem Image.findNext_append (image : Image headerSize) (rest : List UInt8) :
    findNext headerSize ((image.bytes ++ rest).map some) = some (some image.bytes.length) := by
  have hroom := image.room
  have hlength := image.length_bytes
  have htotal : ((image.bytes ++ rest).map some).length =
      headerSize + image.payload.length + rest.length := by
    rw [List.length_map, List.length_append, hlength]
  have hsize := image.readPayloadSize_append (rest.map some)
  rw [← List.map_append] at hsize
  rw [findNext, ite_cond_eq_false _ _ (eq_false (by omega)), hsize, Option.bind_eq_bind,
    Option.bind_some, ite_cond_eq_false _ _ (eq_false (by omega)), hlength]

/-- A part of an image is not taken for a pickle. -/
theorem Image.findNext_part (image : Image headerSize) {part missing : List UInt8}
    (hpart : part ++ missing = image.bytes) (hmissing : missing ≠ []) :
    findNext headerSize (part.map some) = some none := by
  have hlength := image.length_bytes
  have hparts : part.length + missing.length = image.bytes.length := by
    rw [← hpart, List.length_append]
  have hpositive : 0 < missing.length := List.length_pos_of_ne_nil hmissing
  rw [findNext]
  split
  case isTrue => rfl
  case isFalse hroom =>
    rw [List.length_map] at hroom
    have hfront : part.map some = (image.bytes.map some).take part.length := by
      rw [← hpart, List.map_append, List.take_left' (List.length_map some)]
    have hsize : readPayloadSize (part.map some) = some image.payload.length := by
      have hwhole := image.readPayloadSize_append []
      rw [List.append_nil] at hwhole
      rw [← hwhole, readPayloadSize, readPayloadSize, hfront, load_take (by omega)]
    rw [hsize, List.length_map]
    exact ite_cond_eq_true _ _ (eq_true (by omega))

/-- The frames of a range: `FindNext` again and again, on what is left behind the last end
it gave, until it gives null. There is no result when it reads outside of the range, or when
the fuel is used up. -/
def frames (headerSize : Nat) : Nat → List UInt8 → Option (List (List UInt8) × List UInt8)
  | 0, _ => none
  | fuel + 1, range =>
      match findNext headerSize (range.map some) with
      | none => none
      | some none => some ([], range)
      | some (some stop) =>
          (frames headerSize fuel (range.drop stop)).map fun behind =>
            (range.take stop :: behind.1, behind.2)

theorem frames_stop {range : List UInt8} (hnull : findNext headerSize (range.map some) = some none)
    (fuel : Nat) : frames headerSize (fuel + 1) range = some ([], range) := by
  simp only [frames, hnull]

theorem frames_image (image : Image headerSize) (fuel : Nat) (rest : List UInt8) :
    frames headerSize (fuel + 1) (image.bytes ++ rest) =
      (frames headerSize fuel rest).map fun behind => (image.bytes :: behind.1, behind.2) := by
  simp only [frames, image.findNext_append rest, List.take_left, List.drop_left]

theorem frames_front (images : List (Image headerSize)) {arrived missing : List UInt8}
    (hstream : arrived ++ missing = images.flatMap Image.bytes) {fuel : Nat}
    (hfuel : arrived.length < fuel) :
    ∃ whole later tail, images = whole ++ later ∧
      frames headerSize fuel arrived = some (whole.map Image.bytes, tail) ∧
      findNext headerSize (tail.map some) = some none ∧
      arrived = whole.flatMap Image.bytes ++ tail ∧
      tail ++ missing = later.flatMap Image.bytes ∧
      ∀ next ∈ later.head?, tail.length < next.bytes.length := by
  induction images generalizing arrived fuel with
  | nil =>
      obtain ⟨fuel, rfl⟩ := Nat.exists_eq_add_of_lt hfuel
      obtain rfl := (List.append_eq_nil_iff.mp hstream).1
      have hnull : findNext headerSize (([] : List UInt8).map some) = some none := rfl
      exact ⟨[], [], [], rfl, frames_stop hnull _, hnull, rfl, hstream, by simp⟩
  | cons image more ih =>
      rw [List.flatMap_cons] at hstream
      rcases Nat.lt_or_ge arrived.length image.bytes.length with hcut | hwhole
      · obtain ⟨cut, himage⟩ : arrived <+: image.bytes :=
          List.prefix_of_prefix_length_le ⟨missing, hstream⟩ ⟨_, rfl⟩ (by omega)
        have hne : cut ≠ [] := by
          intro hnil
          rw [← himage, hnil, List.append_nil] at hcut
          omega
        have hnull := image.findNext_part himage hne
        obtain ⟨fuel, rfl⟩ := Nat.exists_eq_add_of_lt hfuel
        refine ⟨[], image :: more, arrived, rfl, frames_stop hnull _, hnull, rfl, hstream, ?_⟩
        intro next hnext
        cases hnext
        exact hcut
      · obtain ⟨behind, harrived⟩ : image.bytes <+: arrived :=
          List.prefix_of_prefix_length_le ⟨_, rfl⟩ ⟨missing, hstream⟩ hwhole
        have hroom := image.room
        have hword : sizeofHeader = 4 := rfl
        have hlength := image.length_bytes
        rw [← harrived, List.append_assoc, List.append_cancel_left_eq] at hstream
        rw [← harrived, List.length_append] at hfuel
        cases fuel with
        | zero => omega
        | succ fuel =>
            obtain ⟨whole, later, tail, himages, hframes, hnull, hbehind, hlater⟩ :=
              ih hstream (show behind.length < fuel by omega)
            refine ⟨image :: whole, later, tail, by rw [himages, List.cons_append], ?_, hnull, ?_,
              hlater⟩
            · rw [← harrived, frames_image, hframes, Option.map_some, List.map_cons]
            · rw [← harrived, hbehind, List.flatMap_cons, List.append_assoc]

/-- Wherever a stream of pickles is cut, the frames of what arrived are the pickles that are
whole; `FindNext` gives null for what is left, which is a part of the next one. -/
theorem frames_of_arrived (images : List (Image headerSize)) {arrived missing : List UInt8}
    (hstream : arrived ++ missing = images.flatMap Image.bytes) :
    ∃ whole later tail, images = whole ++ later ∧
      frames headerSize (arrived.length + 1) arrived = some (whole.map Image.bytes, tail) ∧
      findNext headerSize (tail.map some) = some none ∧
      arrived = whole.flatMap Image.bytes ++ tail ∧
      tail ++ missing = later.flatMap Image.bytes ∧
      ∀ next ∈ later.head?, tail.length < next.bytes.length :=
  frames_front images hstream (Nat.lt_succ_self _)

/-- An image of two bytes. -/
def twoBytes : Image 4 := ⟨[2, 0, 0, 0], [7, 8], rfl, Nat.le_refl 4, rfl, of_decide_eq_true rfl⟩

theorem frames_of_seven :
    ∃ whole later tail, [twoBytes, twoBytes] = whole ++ later ∧
      frames 4 ([2, 0, 0, 0, 7, 8, 2].length + 1) [2, 0, 0, 0, 7, 8, 2] =
        some (whole.map Image.bytes, tail) ∧
      findNext 4 (tail.map some) = some none ∧
      [2, 0, 0, 0, 7, 8, 2] = whole.flatMap Image.bytes ++ tail ∧
      tail ++ [0, 0, 0, 7, 8] = later.flatMap Image.bytes ∧
      ∀ next ∈ later.head?, tail.length < next.bytes.length :=
  frames_of_arrived [twoBytes, twoBytes]
    (show [2, 0, 0, 0, 7, 8, 2] ++ [0, 0, 0, 7, 8] = [twoBytes, twoBytes].flatMap Image.bytes
      from rfl)

end FindNext

end GitRpc.Base
