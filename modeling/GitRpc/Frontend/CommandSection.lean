import Mathlib.Data.List.TakeWhile
import GitRpc.Frontend.Commands

/-!
The whole command section of a push, as clients may send it: commands and
`shallow` lines in any order, each with a line feed at its end or without one.
The first command carries the capabilities of the client behind a null
character. The lines here are the payloads that `DecodeUntilFlush` gives.
-/

namespace GitRpc.Frontend

/-- One command, "old new name". -/
structure Update where
  oldId : String
  newId : String
  name : String
  lineFeed : Bool
  blanks : ' ' ∉ oldId.toList ∧ ' ' ∉ newId.toList ∧ ' ' ∉ name.toList
  plain : '\x00' ∉ name.toList ∧ '\n' ∉ name.toList

structure Shallow where
  id : String
  lineFeed : Bool
  blank : ' ' ∉ id.toList

/-- What stands between the first command and the flush. -/
inductive SectionLine where
  | update (u : Update)
  | shallow (line : Shallow)

structure CommandSection where
  shallows : List Shallow
  first : Update
  capabilities : String
  later : List SectionLine

def lineEnd (lineFeed : Bool) : String := if lineFeed then "\n" else ""

def Shallow.payload (line : Shallow) : String := "shallow " ++ line.id ++ lineEnd line.lineFeed

/-- A command with something behind its name. -/
def Update.lineWith (u : Update) (tail : String) : String :=
  u.oldId ++ " " ++ u.newId ++ " " ++ (u.name ++ tail)

def SectionLine.payload : SectionLine → String
  | .update u => u.lineWith (lineEnd u.lineFeed)
  | .shallow line => line.payload

def SectionLine.update? : SectionLine → Option Update
  | .update u => some u
  | .shallow _ => none

namespace CommandSection

def firstLine (s : CommandSection) : String :=
  s.first.lineWith ("\x00" ++ s.capabilities ++ lineEnd s.first.lineFeed)

def payloads (s : CommandSection) : List String :=
  s.shallows.map Shallow.payload ++ s.firstLine :: s.later.map SectionLine.payload

def laterUpdates (s : CommandSection) : List Update := s.later.filterMap SectionLine.update?

def updates (s : CommandSection) : List Update := s.first :: s.laterUpdates

end CommandSection

/-- The names are those of the commands, in order, and each has the new id of
its last command. -/
def CommandSection.Decoded (s : CommandSection) : Prop :=
  (parseCommands s.payloads).names = s.updates.map Update.name ∧
    ∀ name, (parseCommands s.payloads).refs name =
      lastId (s.updates.map fun u => (u.name, u.newId)) name

/-- A blank stands where the split needs one: in front of the capabilities, or
nothing stands behind the null character; and no later name has a line feed
behind it. -/
def CommandSection.Separated (s : CommandSection) : Prop :=
  ((∃ rest, s.capabilities = " " ++ rest) ∨ (s.capabilities = "" ∧ s.first.lineFeed = false)) ∧
    ∀ u ∈ s.laterUpdates, u.lineFeed = false

/-- What stands before the first blank. -/
def untilBlank (s : String) : String := String.ofList (s.toList.takeWhile (· ≠ ' '))

theorem split_untilBlank (s : String) : ∃ rest, strings.split ' ' s = untilBlank s :: rest := by
  have hpart : ' ' ∉ (untilBlank s).toList := by
    intro hmem
    rw [untilBlank, String.toList_ofList] at hmem
    simpa using List.mem_takeWhile_imp hmem
  cases hdrop : s.toList.dropWhile (· ≠ ' ') with
  | nil =>
      have hall : untilBlank s = s := by
        have hsplit := List.takeWhile_append_dropWhile (p := (· ≠ ' ')) (l := s.toList)
        rw [hdrop, List.append_nil] at hsplit
        rw [untilBlank, hsplit, String.ofList_toList]
      refine ⟨[], ?_⟩
      rw [hall] at hpart ⊢
      exact split_last hpart
  | cons c rest =>
      have hblank : c = ' ' := by
        have hhead := List.head?_dropWhile_not (fun c => decide (c ≠ ' ')) s.toList
        rw [hdrop] at hhead
        simpa using hhead
      refine ⟨strings.split ' ' (String.ofList rest), ?_⟩
      have hwhole : s = untilBlank s ++ (" " ++ String.ofList rest) := by
        have hsplit := List.takeWhile_append_dropWhile (p := (· ≠ ' ')) (l := s.toList)
        rw [hdrop, hblank] at hsplit
        apply String.toList_inj.mp
        simp only [String.toList_append, untilBlank, String.toList_ofList]
        exact hsplit.symm
      have hafter := split_append hpart (String.ofList rest)
      rwa [← hwhole] at hafter

theorem untilBlank_append {part : String} (hpart : ' ' ∉ part.toList) (tail : String) :
    untilBlank (part ++ tail) = part ++ untilBlank tail := by
  have hall : ∀ c ∈ part.toList, decide (c ≠ ' ') = true := by
    intro c hc
    rw [decide_eq_true_eq]
    rintro rfl
    exact hpart hc
  apply String.toList_inj.mp
  simp only [untilBlank, String.toList_append, String.toList_ofList]
  exact List.takeWhile_append_of_pos hall

/-- What `packUpload` takes for the name in a line. -/
def Update.readName (u : Update) (tail : String) : String :=
  strings.trimSuffix (u.name ++ untilBlank tail) '\x00'

theorem addLine_lineWith (parsed : ParsedRefs) (u : Update) (tail : String) :
    parsed.addLine (u.lineWith tail) = ⟨parsed.names ++ [u.readName tail],
      Function.update parsed.refs (u.readName tail) u.newId⟩ := by
  obtain ⟨hold, hnew, hname⟩ := u.blanks
  obtain ⟨rest, hrest⟩ := split_untilBlank (u.name ++ tail)
  have hsplit : strings.split ' ' (u.lineWith tail) =
      u.oldId :: u.newId :: untilBlank (u.name ++ tail) :: rest := by
    rw [Update.lineWith, String.append_assoc, String.append_assoc, String.append_assoc,
      split_append hold, split_append hnew, hrest]
  rw [untilBlank_append hname] at hsplit
  simp only [ParsedRefs.addLine, hsplit, Update.readName]

/-- A `shallow` line has too few parts. -/
theorem addLine_shallow (parsed : ParsedRefs) (line : Shallow) :
    parsed.addLine line.payload = parsed := by
  have hrest : ' ' ∉ (line.id ++ lineEnd line.lineFeed).toList := by
    rw [String.toList_append, List.mem_append, not_or]
    refine ⟨line.blank, ?_⟩
    unfold lineEnd
    split <;> decide
  have hsplit : strings.split ' ' line.payload =
      ["shallow", line.id ++ lineEnd line.lineFeed] := by
    rw [Shallow.payload, show "shallow " = "shallow" ++ " " from rfl, String.append_assoc,
      String.append_assoc, split_append (by decide), split_last hrest]
  simp only [ParsedRefs.addLine, hsplit]

/-- The names that are read, with their new ids. -/
def CommandSection.read (s : CommandSection) : List (String × String) :=
  (s.first.readName ("\x00" ++ s.capabilities ++ lineEnd s.first.lineFeed), s.first.newId) ::
    s.laterUpdates.map fun u => (u.readName (lineEnd u.lineFeed), u.newId)

theorem foldl_shallows (parsed : ParsedRefs) (lines : List Shallow) :
    (lines.map Shallow.payload).foldl ParsedRefs.addLine parsed = parsed := by
  induction lines with
  | nil => rfl
  | cons line rest ih =>
      rw [List.map_cons, List.foldl_cons, addLine_shallow]
      exact ih

theorem foldl_later (parsed : ParsedRefs) (lines : List SectionLine) :
    (lines.map SectionLine.payload).foldl ParsedRefs.addLine parsed =
      ((lines.filterMap SectionLine.update?).map fun u =>
        (u.readName (lineEnd u.lineFeed), u.newId)).foldl addPair parsed := by
  induction lines generalizing parsed with
  | nil => rfl
  | cons line rest ih =>
      rw [List.map_cons, List.foldl_cons]
      cases line with
      | update u =>
          rw [SectionLine.payload, addLine_lineWith, ih]
          rfl
      | shallow line =>
          rw [SectionLine.payload, addLine_shallow, ih]
          rfl

theorem parseCommands_payloads (s : CommandSection) :
    parseCommands s.payloads = s.read.foldl addPair ⟨[], fun _ => ""⟩ := by
  rw [parseCommands, CommandSection.payloads, List.foldl_append, foldl_shallows, List.foldl_cons,
    CommandSection.firstLine, addLine_lineWith, foldl_later]
  rfl

/-- The trim takes one null character off, and nothing else. -/
theorem trimSuffix_append_eq {name : String} (hplain : '\x00' ∉ name.toList) (tail : String) :
    strings.trimSuffix (name ++ tail) '\x00' = name ↔ tail = "" ∨ tail = "\x00" := by
  cases hchars : tail.toList using List.reverseRecOn with
  | nil =>
      have htail : tail = "" := String.toList_inj.mp hchars
      simp [htail, trimSuffix_plain hplain]
  | append_singleton before last =>
      have htail : tail = String.ofList before ++ String.ofList [last] := by
        apply String.toList_inj.mp
        simp [hchars]
      have hne : tail ≠ "" := by
        rintro rfl
        simp at hchars
      by_cases hlast : last = '\x00'
      · subst hlast
        have htrim : strings.trimSuffix (name ++ tail) '\x00' = name ++ String.ofList before := by
          rw [htail, ← String.append_assoc]
          exact trimSuffix_concat _
        rw [htrim, or_iff_right hne, htail]
        simp [← String.toList_inj]
      · have hkeep : strings.trimSuffix (name ++ tail) '\x00' = name ++ tail := by
          unfold strings.trimSuffix
          rw [if_neg]
          simp [hchars, hlast]
        have hnull : tail ≠ "\x00" := by
          rintro rfl
          have hends := congrArg List.getLast? hchars
          simp at hends
          exact hlast hends.symm
        rw [hkeep, or_iff_left hnull, ← String.toList_inj, ← String.toList_inj,
          String.toList_append]
        simp

theorem Update.readName_lineEnd (u : Update) :
    u.readName (lineEnd u.lineFeed) = u.name ↔ u.lineFeed = false := by
  rw [Update.readName, trimSuffix_append_eq u.plain.1]
  cases u.lineFeed <;> simp [lineEnd, untilBlank, ← String.toList_inj]

theorem blank_first_iff (s : String) : (∃ rest, s = " " ++ rest) ↔ s.toList.head? = some ' ' := by
  constructor
  · rintro ⟨rest, rfl⟩
    simp
  · intro hhead
    cases hchars : s.toList with
    | nil => simp [hchars] at hhead
    | cons c rest =>
        have hblank : c = ' ' := by simpa [hchars] using hhead
        refine ⟨String.ofList rest, String.toList_inj.mp ?_⟩
        simp [hchars, hblank]

theorem untilBlank_eq_empty (s : String) :
    untilBlank s = "" ↔ s.toList = [] ∨ s.toList.head? = some ' ' := by
  rw [← String.toList_inj, untilBlank, String.toList_ofList]
  cases s.toList with
  | nil => simp
  | cons c rest => by_cases hblank : c = ' ' <;> simp [hblank]

theorem CommandSection.readName_first (s : CommandSection) :
    s.first.readName ("\x00" ++ s.capabilities ++ lineEnd s.first.lineFeed) = s.first.name ↔
      (∃ rest, s.capabilities = " " ++ rest) ∨
        (s.capabilities = "" ∧ s.first.lineFeed = false) := by
  have hnull : untilBlank ("\x00" ++ s.capabilities ++ lineEnd s.first.lineFeed) =
      "\x00" ++ untilBlank (s.capabilities ++ lineEnd s.first.lineFeed) := by
    rw [String.append_assoc, untilBlank_append (by decide)]
  have hempty : ∀ tail : String, "\x00" ++ tail = "" ∨ "\x00" ++ tail = "\x00" ↔ tail = "" := by
    intro tail
    rw [← String.toList_inj, ← String.toList_inj, ← String.toList_inj, String.toList_append]
    simp
  rw [Update.readName, trimSuffix_append_eq s.first.plain.1, hnull, hempty, untilBlank_eq_empty]
  rw [blank_first_iff, ← @String.toList_inj s.capabilities, String.toList_append]
  cases s.capabilities.toList with
  | nil => cases s.first.lineFeed <;> simp [lineEnd]
  | cons c rest => simp

theorem CommandSection.names_read_iff (s : CommandSection) :
    s.read.map Prod.fst = s.updates.map Update.name ↔ s.Separated := by
  have hlater : (s.laterUpdates.map fun u => u.readName (lineEnd u.lineFeed)) =
      s.laterUpdates.map Update.name ↔ ∀ u ∈ s.laterUpdates, u.lineFeed = false := by
    rw [List.map_inj_left]
    exact forall₂_congr fun u _ => u.readName_lineEnd
  have hread : s.read.map Prod.fst =
      s.first.readName ("\x00" ++ s.capabilities ++ lineEnd s.first.lineFeed) ::
        s.laterUpdates.map fun u => u.readName (lineEnd u.lineFeed) := by
    simp [CommandSection.read]
  rw [hread, CommandSection.updates, List.map_cons, List.cons.injEq, s.readName_first, hlater]
  rfl

theorem CommandSection.read_eq (s : CommandSection) (hseparated : s.Separated) :
    s.read = s.updates.map fun u => (u.name, u.newId) := by
  obtain ⟨hfirst, hlater⟩ := hseparated
  rw [CommandSection.read, s.readName_first.mpr hfirst, CommandSection.updates, List.map_cons]
  congr 1
  apply List.map_congr_left
  intro u hu
  rw [u.readName_lineEnd.mpr (hlater u hu)]

/-- For every section: it is decoded as it was sent exactly when every name is
separated from what stands behind it. -/
theorem section_decoded_iff (s : CommandSection) : s.Decoded ↔ s.Separated := by
  obtain ⟨hnames, hrefs⟩ := foldl_addPair s.read
  rw [← parseCommands_payloads] at hnames hrefs
  constructor
  · intro hdecoded
    rw [← s.names_read_iff, ← hnames]
    exact hdecoded.1
  · intro hseparated
    refine ⟨hnames.trans (s.names_read_iff.mpr hseparated), fun name => ?_⟩
    rw [hrefs, s.read_eq hseparated]

theorem master_blanks : ' ' ∉ zeroId.toList ∧
    ' ' ∉ "a94a8fe5ccb19ba61c4c0873d391e987982fbbd3".toList ∧ ' ' ∉ "refs/heads/master".toList := by
  decide

theorem master_plain :
    '\x00' ∉ "refs/heads/master".toList ∧ '\n' ∉ "refs/heads/master".toList := by
  decide

/-- A client that puts no blank in front of its capabilities. -/
def closeCapabilities : CommandSection where
  shallows := []
  first := ⟨zeroId, "a94a8fe5ccb19ba61c4c0873d391e987982fbbd3", "refs/heads/master", false,
    master_blanks, master_plain⟩
  capabilities := "report-status"
  later := []

/-- The name that is read goes on with the capabilities. -/
theorem capabilities_end_up_in_name : ¬ closeCapabilities.Decoded := by
  rintro ⟨hnames, -⟩
  rw [parseCommands_payloads, (foldl_addPair _).1] at hnames
  have hread : closeCapabilities.read.map Prod.fst = ["refs/heads/master\x00report-status"] := by
    decide
  rw [hread] at hnames
  revert hnames
  decide

end GitRpc.Frontend
