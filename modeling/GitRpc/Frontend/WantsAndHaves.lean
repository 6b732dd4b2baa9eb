import GitRpc.Library.Words

/-!
How `decodeWantsAndHaves` reads the body of an upload-pack request. The decoder
of the lines gives the payloads in order, an empty one for a flush, and an error
behind the last; `plumbing.NewHash` is a parameter.
-/

namespace GitRpc.Frontend

open Library.Words

abbrev Bytes := List UInt8

def SP : UInt8 := 0x20
def LF : UInt8 := 0x0a

/-- The first word of a line. -/
structure Keyword where
  word : Bytes
  plain : SP ∉ word

def wantWord : Bytes := [0x77, 0x61, 0x6e, 0x74]
def haveWord : Bytes := [0x68, 0x61, 0x76, 0x65]

theorem wantWord_plain : SP ∉ wantWord := by decide
theorem haveWord_plain : SP ∉ haveWord := by decide

def wantLine : Keyword := ⟨wantWord, wantWord_plain⟩
def haveLine : Keyword := ⟨haveWord, haveWord_plain⟩

/-- The variables `wants` and `haves`. -/
structure Decoded (Hash : Type) where
  wants : List Hash
  haves : List Hash
  deriving DecidableEq

variable {Hash : Type}

/-- One turn of the loop; `none` is an index out of range. -/
def Decoded.readLine (newHash : Bytes → Hash) (decoded : Decoded Hash) (line : Bytes) :
    Option (Decoded Hash) :=
  if line.length = 0 then some decoded
  else
    -- The last byte is cut off, whatever it is.
    let line := line.take (line.length - 1)
    let lineParts := line.splitOn SP
    match lineParts[0]? with
    | none => none
    | some first =>
        if first = wantWord then
          match lineParts[1]? with
          | none => none
          | some part => some { decoded with wants := decoded.wants ++ [newHash part] }
        else if first = haveWord then
          match lineParts[1]? with
          | none => none
          | some part => some { decoded with haves := decoded.haves ++ [newHash part] }
        else some decoded

/-- The loop returns when the decoder gives an error, behind the last line. -/
def decodeWantsAndHaves (newHash : Bytes → Hash) (lines : List Bytes) : Option (Decoded Hash) :=
  lines.foldlM (Decoded.readLine newHash) ⟨[], []⟩

def IsHexDigit (byte : UInt8) : Prop :=
  (0x30 ≤ byte ∧ byte ≤ 0x39) ∨ (0x61 ≤ byte ∧ byte ≤ 0x66) ∨ (0x41 ≤ byte ∧ byte ≤ 0x46)

instance : DecidablePred IsHexDigit := fun byte =>
  inferInstanceAs (Decidable ((0x30 ≤ byte ∧ byte ≤ 0x39) ∨ (0x61 ≤ byte ∧ byte ≤ 0x66) ∨
    (0x41 ≤ byte ∧ byte ≤ 0x46)))

def IsId (id : Bytes) : Prop := id.length = 40 ∧ ∀ byte ∈ id, IsHexDigit byte

instance : DecidablePred IsId := fun id =>
  inferInstanceAs (Decidable (id.length = 40 ∧ ∀ byte ∈ id, IsHexDigit byte))

/-- What may stand behind the id: nothing, a line feed, or, where the line may
have them, a blank and capabilities. -/
def IdEnds (capabilities : Bool) (tail : Bytes) : Prop :=
  tail = [] ∨ tail = [LF] ∨ capabilities ∧ tail.head? = some SP

instance (capabilities : Bool) : DecidablePred (IdEnds capabilities) := fun tail =>
  inferInstanceAs (Decidable (tail = [] ∨ tail = [LF] ∨ capabilities ∧ tail.head? = some SP))

/-- The id of a well-formed line with this keyword. -/
def Keyword.idOf (keyword : Keyword) (capabilities : Bool) (line : Bytes) : Option Bytes :=
  let behind := line.drop (keyword.word ++ [SP]).length
  if keyword.word ++ [SP] <+: line ∧ IsId (behind.take 40) ∧
      IdEnds capabilities (behind.drop 40) then
    some (behind.take 40)
  else none

/-- The lines, each with whether no want has come before it: only the first
want may have capabilities. -/
def withFirst : Bool → List Bytes → List (Bool × Bytes)
  | _, [] => []
  | first, line :: rest =>
      (first, line) :: withFirst (first && (wantLine.idOf true line).isNone) rest

/-- What the body asks for. -/
def wantsAndHaves (newHash : Bytes → Hash) (lines : List Bytes) : Decoded Hash :=
  ⟨((withFirst true lines).filterMap fun line => wantLine.idOf line.1 line.2).map newHash,
    (lines.filterMap (haveLine.idOf false)).map newHash⟩

/-- Nothing that counts is lost with the last byte of the line, and a line
that is not well-formed is not taken for one that has the keyword. -/
structure ReadsRight (newHash : Bytes → Hash) (keyword : Keyword) (capabilities : Bool)
    (line : Bytes) : Prop where
  cut : ∀ id, IsId id → line = keyword.word ++ SP :: id → newHash id.dropLast = newHash id
  other : keyword.idOf capabilities line = none →
    line.dropLast ≠ keyword.word ∧ ¬ keyword.word ++ [SP] <+: line.dropLast

/-- The second word of the line without its last byte, when the first is the
keyword. -/
def Keyword.partOf (keyword : Keyword) (line : Bytes) : Option Bytes :=
  match line.dropLast.splitOn SP with
  | first :: part :: _ => if first = keyword.word then some part else none
  | _ => none

theorem sp_notMem_of_isId {id : Bytes} (hid : IsId id) : SP ∉ id := by
  intro hmem
  have hdigit := hid.2 SP hmem
  revert hdigit
  decide

/-- The grammar of a well-formed line. -/
theorem Keyword.idOf_eq_some_iff (keyword : Keyword) (capabilities : Bool) (line id : Bytes) :
    keyword.idOf capabilities line = some id ↔
      IsId id ∧ ∃ tail, IdEnds capabilities tail ∧ line = keyword.word ++ SP :: (id ++ tail) := by
  constructor
  · intro h
    simp only [Keyword.idOf, Option.ite_none_right_eq_some, Option.some.injEq] at h
    obtain ⟨⟨⟨behind, hline⟩, hid, hends⟩, heq⟩ := h
    rw [← hline, List.drop_left] at hid hends heq
    refine ⟨heq ▸ hid, _, hends, ?_⟩
    rw [← heq, List.take_append_drop, ← hline, List.append_assoc, List.singleton_append]
  · rintro ⟨hid, tail, hends, hline⟩
    have hsplit : line = (keyword.word ++ [SP]) ++ (id ++ tail) := by
      rw [hline, List.append_assoc, List.singleton_append]
    have hbehind : line.drop (keyword.word ++ [SP]).length = id ++ tail := by
      rw [hsplit, List.drop_left]
    have htake : (id ++ tail).take 40 = id := by rw [← hid.1, List.take_left]
    have hdrop : (id ++ tail).drop 40 = tail := by rw [← hid.1, List.drop_left]
    have hstarts : keyword.word ++ [SP] <+: line := ⟨id ++ tail, hsplit.symm⟩
    simp only [Keyword.idOf, hbehind, htake, hdrop]
    rw [if_pos ⟨hstarts, hid, hends⟩]

/-- A second want with capabilities is not well-formed. -/
example : wantsAndHaves (fun id => id)
    [wantWord ++ SP :: (List.replicate 40 0x61 ++ [LF]),
      wantWord ++ SP :: (List.replicate 40 0x62 ++ [SP, 0x78, LF])] =
    ⟨[List.replicate 40 0x61], []⟩ := by decide +kernel

/-- Something is read exactly behind the keyword and a blank. -/
theorem Keyword.partOf_isSome_iff (keyword : Keyword) (line : Bytes) :
    (keyword.partOf line).isSome ↔ keyword.word ++ [SP] <+: line.dropLast := by
  rw [← splitOn_cons_cons_iff keyword.plain]
  unfold Keyword.partOf
  split
  · rename_i first part more hsplit
    by_cases hfirst : first = keyword.word
    · simp [hfirst, hsplit]
    · simp [hfirst, hsplit]
  · rename_i hsplit
    refine iff_of_false (by simp) ?_
    rintro ⟨second, more, heq⟩
    exact hsplit _ _ _ heq

theorem Keyword.partOf_word {keyword : Keyword} {line part tail : Bytes} (hpart : SP ∉ part)
    (htail : Behind SP tail) (hline : line.dropLast = keyword.word ++ SP :: (part ++ tail)) :
    keyword.partOf line = some part := by
  obtain ⟨more, hmore⟩ := splitOn_word hpart htail
  unfold Keyword.partOf
  rw [hline, List.splitOn_append_cons_self_of_not_mem keyword.plain, hmore]
  simp

/-- What is read of a well-formed line: the id, less its last digit when
nothing stands behind it. -/
theorem Keyword.partOf_of_idOf {keyword : Keyword} {capabilities : Bool} {line id : Bytes}
    (hid : keyword.idOf capabilities line = some id) :
    keyword.partOf line =
      some (if line = keyword.word ++ SP :: id then id.dropLast else id) := by
  obtain ⟨hid, tail, hends, hline⟩ := (keyword.idOf_eq_some_iff capabilities line id).mp hid
  have hplain := sp_notMem_of_isId hid
  rcases List.eq_nil_or_concat tail with rfl | ⟨before, last, rfl⟩
  · have hne : id ≠ [] := by
      rintro rfl
      simp [IsId] at hid
    rw [List.append_nil] at hline
    rw [if_pos hline]
    apply Keyword.partOf_word (fun hmem => hplain (List.dropLast_subset id hmem)) (.inl rfl)
    rw [hline, List.dropLast_append_of_ne_nil (by simp), List.dropLast_cons_of_ne_nil hne,
      List.append_nil]
  · have hbare : line ≠ keyword.word ++ SP :: id := by
      intro heq
      have hlength := congrArg List.length (hline.symm.trans heq)
      simp at hlength
    have htail : Behind SP before := by
      rcases hends with hnil | hlf | ⟨-, hblank⟩
      · simp at hnil
      · left
        simpa using congrArg List.dropLast hlf
      · cases before with
        | nil => exact .inl rfl
        | cons first rest => exact .inr (by simpa using hblank)
    rw [if_neg hbare]
    apply Keyword.partOf_word hplain htail
    rw [hline, List.concat_eq_append, ← List.append_assoc id, ← List.cons_append,
      ← List.append_assoc, List.dropLast_concat]

/-- A line is read as expected, and without an index out of range, exactly when
the keyword has its second word. -/
theorem readsRight_iff {newHash : Bytes → Hash} {keyword : Keyword} {capabilities : Bool}
    {line : Bytes} :
    ReadsRight newHash keyword capabilities line ↔ line.dropLast ≠ keyword.word ∧
      (keyword.partOf line).map newHash = (keyword.idOf capabilities line).map newHash := by
  cases hid : keyword.idOf capabilities line with
  | none =>
      have hnone : keyword.partOf line = none ↔ ¬ keyword.word ++ [SP] <+: line.dropLast := by
        rw [← keyword.partOf_isSome_iff, Option.not_isSome_iff_eq_none]
      rw [Option.map_none, Option.map_eq_none_iff, hnone]
      refine ⟨fun h => h.other hid, fun h => ⟨fun id hgood hline => ?_, fun _ => h⟩⟩
      have hsome := (keyword.idOf_eq_some_iff capabilities line id).mpr
        ⟨hgood, [], .inl rfl, by rw [List.append_nil, hline]⟩
      rw [hid] at hsome
      cases hsome
  | some id =>
      have hpart := Keyword.partOf_of_idOf hid
      obtain ⟨hgood, -⟩ := (keyword.idOf_eq_some_iff capabilities line id).mp hid
      have hword : line.dropLast ≠ keyword.word := by
        intro heq
        obtain ⟨rest, hrest⟩ := (keyword.partOf_isSome_iff line).mp (by rw [hpart]; rfl)
        have hlength := congrArg List.length (hrest.trans heq)
        simp at hlength
      rw [hpart, Option.map_some, Option.map_some, Option.some.injEq]
      constructor
      · intro h
        refine ⟨hword, ?_⟩
        split
        · rename_i hline
          exact h.cut id hgood hline
        · rfl
      · rintro ⟨-, heq⟩
        refine ⟨fun other _ hline => ?_, fun hnone => ?_⟩
        · have hsame : keyword.idOf capabilities line = some other :=
            (keyword.idOf_eq_some_iff capabilities line other).mpr
              ⟨‹_›, [], .inl rfl, by rw [List.append_nil, hline]⟩
          obtain rfl : id = other := Option.some.inj (hid.symm.trans hsame)
          rwa [if_pos hline] at heq
        · rw [hid] at hnone
          cases hnone

theorem wantWord_ne_haveWord : wantWord ≠ haveWord := by decide

/-- One turn: the loop breaks off at a keyword alone, and else appends what it
reads of the line. -/
theorem readLine_eq (newHash : Bytes → Hash) (decoded : Decoded Hash) (line : Bytes) :
    decoded.readLine newHash line =
      if line.dropLast = wantWord ∨ line.dropLast = haveWord then none
      else some
        ⟨decoded.wants ++ ((wantLine.partOf line).map newHash).toList,
          decoded.haves ++ ((haveLine.partOf line).map newHash).toList⟩ := by
  unfold Decoded.readLine Keyword.partOf
  rw [← List.dropLast_eq_take]
  by_cases hempty : line.length = 0
  · obtain rfl := List.length_eq_zero_iff.mp hempty
    simp [wantWord, haveWord]
  · rw [if_neg hempty]
    rcases word_or_more SP line.dropLast with ⟨-, hone⟩ | ⟨word, rest, hplain, htext, hmore⟩
    · by_cases hwant : line.dropLast = wantWord
      · simp [hwant, List.splitOn_eq_singleton wantWord_plain]
      · by_cases hhave : line.dropLast = haveWord
        · simp [hhave, List.splitOn_eq_singleton haveWord_plain, wantWord_ne_haveWord.symm]
        · simp [hone, hwant, hhave]
    · obtain ⟨part, more, hrest⟩ := List.exists_cons_of_ne_nil (List.splitOn_ne_nil SP rest)
      have hwords : ∀ keyword : Keyword, line.dropLast ≠ keyword.word := by
        intro keyword heq
        apply keyword.plain
        rw [← heq, htext]
        simp
      have hnot : ¬ (line.dropLast = wantWord ∨ line.dropLast = haveWord) :=
        not_or.mpr ⟨hwords wantLine, hwords haveLine⟩
      rw [if_neg hnot]
      by_cases hwant : word = wantWord
      · simp [hmore, hrest, hwant, wantLine, haveLine, wantWord_ne_haveWord]
      · by_cases hhave : word = haveWord
        · simp [hmore, hrest, hhave, wantLine, haveLine, wantWord_ne_haveWord.symm]
        · simp [hmore, hrest, hwant, hhave, wantLine, haveLine]

/-- A whole run of the loop. -/
theorem foldlM_readLine (newHash : Bytes → Hash) (decoded : Decoded Hash) (lines : List Bytes) :
    lines.foldlM (Decoded.readLine newHash) decoded =
      if ∃ line ∈ lines, line.dropLast = wantWord ∨ line.dropLast = haveWord then none
      else some
        ⟨decoded.wants ++ lines.filterMap fun line => (wantLine.partOf line).map newHash,
          decoded.haves ++ lines.filterMap fun line => (haveLine.partOf line).map newHash⟩ := by
  induction lines generalizing decoded with
  | nil => simp
  | cons line rest ih =>
      rw [List.foldlM_cons, readLine_eq]
      by_cases hword : line.dropLast = wantWord ∨ line.dropLast = haveWord
      · simp [hword]
      · rw [if_neg hword, Option.bind_eq_bind, Option.bind_some, ih]
        simp only [List.exists_mem_cons_iff, hword, false_or, List.append_assoc,
          List.filterMap_eq_flatMap_toList, List.flatMap_cons]

/-- `withFirst` adds to the lines and leaves them as they are. -/
theorem map_snd_withFirst (first : Bool) (lines : List Bytes) :
    (withFirst first lines).map Prod.snd = lines := by
  induction lines generalizing first with
  | nil => rfl
  | cons line rest ih => rw [withFirst, List.map_cons, ih]

/-- The words that are read are the ids that are asked for, exactly when each
is. -/
theorem parts_eq_iff (newHash : Bytes → Hash) (keyword : Keyword)
    (capabilities : Bool × Bytes → Bool) (lines : List (Bool × Bytes)) :
    (lines.filterMap fun line => (keyword.partOf line.2).map newHash) =
        (lines.filterMap fun line => keyword.idOf (capabilities line) line.2).map newHash ↔
      ∀ line ∈ lines, (keyword.partOf line.2).map newHash =
        (keyword.idOf (capabilities line) line.2).map newHash := by
  rw [List.map_filterMap]
  apply filterMap_eq_iff
  intro line _ hsome
  obtain ⟨id, hid⟩ := Option.isSome_iff_exists.mp (Option.isSome_map.symm.trans hsome)
  rw [Keyword.partOf_of_idOf hid]
  rfl

/-- For every body: the loop comes to its end, and what it returns are exactly
the ids of the well-formed lines, if and only if each line is read right. -/
theorem decodeWantsAndHaves_eq_iff (newHash : Bytes → Hash) (lines : List Bytes) :
    decodeWantsAndHaves newHash lines = some (wantsAndHaves newHash lines) ↔
      ∀ line ∈ withFirst true lines, ReadsRight newHash wantLine line.1 line.2 ∧
        ReadsRight newHash haveLine false line.2 := by
  have hlines := map_snd_withFirst true lines
  rw [wantsAndHaves, decodeWantsAndHaves, foldlM_readLine]
  generalize withFirst true lines = flagged at hlines
  obtain rfl := hlines
  have hwants := parts_eq_iff newHash wantLine Prod.fst flagged
  have hhaves := parts_eq_iff newHash haveLine (fun _ => false) flagged
  simp only [readsRight_iff, List.nil_append, List.filterMap_map, Function.comp_def]
  by_cases hword : ∃ line ∈ flagged.map Prod.snd, line.dropLast = wantWord ∨ line.dropLast = haveWord
  · rw [if_pos hword]
    obtain ⟨line, hmem, hline⟩ := hword
    obtain ⟨entry, hentry, rfl⟩ := List.mem_map.mp hmem
    refine iff_of_false (by simp) fun hall => ?_
    obtain ⟨⟨hwant, -⟩, hhave, -⟩ := hall entry hentry
    rcases hline with heq | heq
    · exact hwant heq
    · exact hhave heq
  · rw [if_neg hword, Option.some.injEq, Decoded.mk.injEq, hwants, hhaves]
    constructor
    · rintro ⟨hwants, hhaves⟩ line hmem
      have htext : line.2 ∈ flagged.map Prod.snd := List.mem_map_of_mem hmem
      refine ⟨⟨fun heq => ?_, hwants line hmem⟩, fun heq => ?_, hhaves line hmem⟩
      · exact hword ⟨line.2, htext, .inl heq⟩
      · exact hword ⟨line.2, htext, .inr heq⟩
    · intro hall
      exact ⟨fun line hmem => (hall line hmem).1.2, fun line hmem => (hall line hmem).2.2⟩

/-- A line with the keyword alone. -/
def bareWant : Bytes := wantWord ++ [LF]

/-- The loop indexes a part that the line does not have. -/
theorem bareWant_out_of_range :
    decodeWantsAndHaves (fun part => part) [bareWant] = none ∧
      decodeWantsAndHaves (fun part => part) [bareWant] ≠
        some (wantsAndHaves (fun part => part) [bareWant]) := by
  have hnone : decodeWantsAndHaves (fun part => part) [bareWant] = none := by
    rw [decodeWantsAndHaves, foldlM_readLine, if_pos]
    exact ⟨bareWant, List.mem_singleton_self _, .inl rfl⟩
  exact ⟨hnone, by simp [hnone]⟩

end GitRpc.Frontend
