import Mathlib.Tactic

/-!
How `packUpload` reads the command section of a push: one line a command, with
the old id, the new id and the name of the reference, split at blanks.
-/

namespace GitRpc.Frontend

/-- `strings.Split` at one character. -/
def strings.split (sep : Char) (s : String) : List String :=
  (s.toList.splitOn sep).map String.ofList

/-- `strings.TrimSuffix` for a suffix of one character. -/
def strings.trimSuffix (s : String) (suffix : Char) : String :=
  if s.toList.getLast? = some suffix then String.ofList s.toList.dropLast else s

/-- `parsedRefNames` and `parsedRefs`. A key that was never set gives the
empty string. -/
structure ParsedRefs where
  names : List String
  refs : String → String

/-- The loop body. The first part of a line, the old id, is not used. -/
def ParsedRefs.addLine (parsed : ParsedRefs) (lineStr : String) : ParsedRefs :=
  match strings.split ' ' lineStr with
  | _ :: newId :: name :: _ =>
      let refName := strings.trimSuffix name '\x00'
      ⟨parsed.names ++ [refName], Function.update parsed.refs refName newId⟩
  | _ => parsed

def parseCommands (lines : List String) : ParsedRefs :=
  lines.foldl ParsedRefs.addLine ⟨[], fun _ => ""⟩

/-- A command of a push. A blank or a null character would end one of its
parts; `capabilities` is what a client may put behind the first command. -/
structure Command where
  oldId : String
  newId : String
  name : String
  capabilities : Option String
  blanks : ' ' ∉ oldId.toList ∧ ' ' ∉ newId.toList ∧ ' ' ∉ name.toList
  plain : '\x00' ∉ name.toList

/-- The id that stands for no object. -/
def zeroId : String := "0000000000000000000000000000000000000000"

/-- A command on the wire: "old new name". -/
def Command.line (c : Command) : String :=
  c.oldId ++ " " ++ c.newId ++ " " ++ c.name ++ c.capabilities.elim "" fun caps => "\x00 " ++ caps

/-- The last command for a name. -/
def lastFor (commands : List Command) (name : String) : Option Command :=
  commands.reverse.find? fun c => c.name = name

theorem trimSuffix_plain {name : String} (hplain : '\x00' ∉ name.toList) :
    strings.trimSuffix name '\x00' = name := by
  unfold strings.trimSuffix
  rw [if_neg]
  intro hlast
  exact hplain (List.mem_of_getLast? hlast)

theorem trimSuffix_concat (name : String) :
    strings.trimSuffix (name ++ "\x00") '\x00' = name := by
  simp [strings.trimSuffix]

theorem split_append {part : String} (hpart : ' ' ∉ part.toList) (rest : String) :
    strings.split ' ' (part ++ (" " ++ rest)) = part :: strings.split ' ' rest := by
  have hsplit := List.splitOn_append_cons_self_of_not_mem hpart rest.toList
  simp only [strings.split, String.toList_append]
  rw [show " ".toList = [' '] from rfl, List.singleton_append, hsplit, List.map_cons,
    String.ofList_toList]

theorem split_last {part : String} (hpart : ' ' ∉ part.toList) :
    strings.split ' ' part = [part] := by
  simp [strings.split, List.splitOn_eq_singleton hpart]

/-- What `packUpload` finds in the line of a command. -/
theorem Command.split_line (c : Command) :
    ∃ part rest, strings.split ' ' c.line = c.oldId :: c.newId :: part :: rest ∧
      strings.trimSuffix part '\x00' = c.name := by
  obtain ⟨hold, hnew, hname⟩ := c.blanks
  cases hcaps : c.capabilities with
  | none =>
      refine ⟨c.name, [], ?_, trimSuffix_plain c.plain⟩
      simp only [Command.line, hcaps, Option.elim_none, String.append_assoc, String.append_empty]
      rw [split_append hold, split_append hnew, split_last hname]
  | some caps =>
      refine ⟨c.name ++ "\x00", strings.split ' ' caps, ?_, trimSuffix_concat c.name⟩
      have hpart : ' ' ∉ (c.name ++ "\x00").toList := by
        rw [String.toList_append, List.mem_append, not_or]
        exact ⟨hname, by decide⟩
      have hline : c.line = c.oldId ++ (" " ++ (c.newId ++ (" " ++
          ((c.name ++ "\x00") ++ (" " ++ caps))))) := by
        rw [Command.line, hcaps, Option.elim_some, show "\x00 " = "\x00" ++ " " from rfl]
        simp only [String.append_assoc]
      rw [hline, split_append hold, split_append hnew, split_append hpart]

theorem addLine_line (parsed : ParsedRefs) (c : Command) :
    parsed.addLine c.line = ⟨parsed.names ++ [c.name],
      Function.update parsed.refs c.name c.newId⟩ := by
  obtain ⟨part, rest, hsplit, hname⟩ := c.split_line
  simp only [ParsedRefs.addLine, hsplit, hname]

/-- The id that the last of the pairs with this name has. -/
def lastId (pairs : List (String × String)) (name : String) : String :=
  (pairs.reverse.find? fun pair => pair.1 = name).elim "" Prod.snd

def addPair (parsed : ParsedRefs) (pair : String × String) : ParsedRefs :=
  ⟨parsed.names ++ [pair.1], Function.update parsed.refs pair.1 pair.2⟩

/-- The names of all pairs, and of each name the last id. -/
theorem foldl_addPair (pairs : List (String × String)) :
    (pairs.foldl addPair ⟨[], fun _ => ""⟩).names = pairs.map Prod.fst ∧
      ∀ name, (pairs.foldl addPair ⟨[], fun _ => ""⟩).refs name = lastId pairs name := by
  induction pairs using List.reverseRecOn with
  | nil => exact ⟨rfl, fun _ => rfl⟩
  | append_singleton before last ih =>
      obtain ⟨hnames, hrefs⟩ := ih
      rw [List.foldl_append, List.foldl_cons, List.foldl_nil, List.map_append]
      refine ⟨?_, fun name => ?_⟩
      · rw [addPair, hnames]
        rfl
      · by_cases hsame : last.1 = name
        · simp [addPair, lastId, hsame]
        · simp [addPair, lastId, hsame, Ne.symm hsame, hrefs]

/-- The names are those of the commands, in order; a name that is given more
than once has the id of its last command. -/
theorem parseCommands_lines (commands : List Command) :
    (parseCommands (commands.map Command.line)).names = commands.map Command.name ∧
      ∀ name, (parseCommands (commands.map Command.line)).refs name =
        (lastFor commands name).elim "" Command.newId := by
  have hparse : parseCommands (commands.map Command.line) =
      (commands.map fun c => (c.name, c.newId)).foldl addPair ⟨[], fun _ => ""⟩ := by
    rw [parseCommands, List.foldl_map, List.foldl_map]
    congr 1
    funext parsed c
    exact addLine_line parsed c
  obtain ⟨hnames, hrefs⟩ := foldl_addPair (commands.map fun c => (c.name, c.newId))
  rw [hparse]
  refine ⟨?_, fun name => ?_⟩
  · rw [hnames, List.map_map]
    rfl
  · rw [hrefs, lastId, lastFor, ← List.map_reverse, List.find?_map, Option.elim_map]
    rfl

end GitRpc.Frontend
