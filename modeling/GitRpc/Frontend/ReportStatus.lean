import GitRpc.Frontend.HttpHandler

/-!
The report of a push, which `listRefs` advertises as "report-status": the
result of unpacking, a line for each command, and one flush packet at the end.
The lines come from three functions, each of which flushes for itself or not
at all, and the first flush packet comes right behind the first line.
-/

namespace GitRpc.Frontend

open Common

/-- A line that reports on this command. -/
def ReportsOn (name : String) (line : PktLine) : Prop :=
  line = .line ("ok " ++ name ++ "\n") ∨
    ∃ reason, line = .line ("ng " ++ name ++ " " ++ reason ++ "\n")

/-- The lines are one report on these commands. -/
def IsReportStatus (names : List String) (output : List PktLine) : Prop :=
  ∃ result lines, output = .line ("unpack " ++ result ++ "\n") :: (lines ++ [.flush]) ∧
    List.Forall₂ ReportsOn names lines

/-- A flush packet comes right behind the first line. -/
def FlushesAtOnce (output : List PktLine) : Prop :=
  ∃ text rest, output = .line text :: .flush :: rest

theorem FlushesAtOnce.append {output : List PktLine} (h : FlushesAtOnce output)
    (more : List PktLine) : FlushesAtOnce (output ++ more) := by
  obtain ⟨text, rest, rfl⟩ := h
  exact ⟨text, rest ++ more, rfl⟩

theorem ErrorLines.flushes {output : List PktLine} (h : ErrorLines output) :
    output = [] ∨ FlushesAtOnce output := by
  obtain ⟨errs, rfl⟩ := h
  cases errs with
  | nil => exact .inl rfl
  | cons err rest => exact .inr ⟨_, _, rfl⟩

variable {net : Network} {reader : Reader}

theorem Uploaded.flushes {bound : Nat} {result : Verdict × StreamWriter}
    (h : Uploaded net reader bound result) :
    (result.1 ≠ .returned true ∧ result.2.output = []) ∨ FlushesAtOnce result.2.output := by
  cases h with
  | running w h =>
      rcases h.output.flushes with hnothing | hflushes
      · exact .inl ⟨by simp, hnothing⟩
      · exact .inr hflushes
  | notWritten k w h =>
      rcases h.output.flushes with hnothing | hflushes
      · exact .inl ⟨by simp, hnothing⟩
      · exact .inr hflushes
  | noStream w hstream hgives hsent houtput | notDone k w hstop hwrote hstream hdone hsent houtput =>
      rcases houtput.flushes with hnothing | hflushes
      · exact .inl ⟨by simp, hnothing⟩
      · exact .inr hflushes
  | unpackOk k w hstop hwrote hstream hdone hsent errors closing herrors hclosing houtput =>
      right
      rw [houtput]
      apply FlushesAtOnce.append
      rcases herrors.flushes with hnothing | hflushes
      · rw [hnothing]
        exact ⟨_, _, rfl⟩
      · exact hflushes.append _

theorem writeReferences_flushes (parsedRefs : String → String) (i : Nat) (names : List String)
    {r : Served} (h : FlushesAtOnce r.output) :
    FlushesAtOnce (writeReferences net parsedRefs i names r).output := by
  induction names generalizing i r with
  | nil => exact h
  | cons ref rest ih =>
      unfold writeReferences
      cases net.writeReference i with
      | some err => exact h.append _
      | none => exact ih (i + 1) (h.append _)

/-- What a push writes begins with a line and a flush packet, if with anything. -/
theorem packUpload_flushes (net : Network) (request : HttpRequest) (fuel : Nat) {r : Served}
    (hr : r.output = []) :
    (packUpload net request fuel r).2.output = [] ∨
      FlushesAtOnce (packUpload net request fuel r).2.output := by
  have huploaded := (unbufferedWriteStream_uploaded net request.body fuel).flushes
  unfold packUpload
  cases request.lines with
  | none => exact .inl hr
  | some lines =>
      cases hupload : unbufferedWriteStream net request.body fuel with
      | mk verdict w =>
          rw [hupload] at huploaded
          have hwriter : (r.encode w.output).output = [] ∨
              FlushesAtOnce (r.encode w.output).output := by
            rw [Served.encode, hr]
            exact huploaded.imp_left And.right
          cases verdict with
          | running => exact hwriter
          | returned result =>
              cases result with
              | false => exact hwriter
              | true =>
                  right
                  apply writeReferences_flushes
                  rw [Served.encode, hr]
                  exact huploaded.resolve_left fun hnothing => hnothing.1 rfl

theorem postRequestHandler_flushes (net : Network) (request : HttpRequest) (fuel : Nat)
    {r : Served} (hr : r.output = []) :
    (postRequestHandler net request fuel r).2.output = [] ∨
      FlushesAtOnce (postRequestHandler net request fuel r).2.output := by
  unfold postRequestHandler
  split
  · exact .inl hr
  · split
    · exact packUpload_flushes net request fuel hr
    · exact .inl hr

/-- A report on at least one command does not. -/
theorem IsReportStatus.not_flushes {names : List String} {output : List PktLine}
    (h : IsReportStatus names output) (hnames : names ≠ []) :
    ¬ (output = [] ∨ FlushesAtOnce output) := by
  obtain ⟨result, lines, rfl, hlines⟩ := h
  cases hlines with
  | nil => exact absurd rfl hnames
  | cons hline hrest =>
      rintro (hnothing | ⟨text, rest, hflush⟩)
      · cases hnothing
      · have hsecond := (List.cons_eq_cons.mp (List.cons_eq_cons.mp hflush).2).1
        rcases hline with rfl | ⟨reason, rfl⟩
        · cases hsecond
        · cases hsecond

/-- For every push with at least one command, every body and every outcome of
the calls: what has been written is not a report on the commands. -/
theorem never_a_report (net : Network) (request : HttpRequest) (fuel : Nat)
    (names : List String) (hnames : names ≠ []) :
    ¬ IsReportStatus names
      (postRequestHandler net request fuel (Served.nothing.changeRepoState true)).2.output := by
  intro hreport
  exact hreport.not_flushes hnames (postRequestHandler_flushes net request fuel rfl)

theorem oneChunk_fits : ([80] : List UInt8).length ≤ chunkSize := by decide

/-- A body of one chunk, which ends as it should. -/
theorem oneChunk_ends : ∀ r ∈ [ReadResult.of [80] none oneChunk_fits], r.err ≠ some .EOF := by
  intro r hmem
  rw [List.mem_singleton.mp hmem]
  exact nofun

/-- A push of one chunk and one new reference. -/
def smallPush : HttpRequest :=
  ⟨"POST", "/git/new-server/git-receive-pack", "",
    some ["0000000000000000000000000000000000000000 " ++
      "a94a8fe5ccb19ba61c4c0873d391e987982fbbd3 refs/heads/master\x00"],
    .of [.of [80] none oneChunk_fits] oneChunk_ends⟩

theorem never_a_report_smallPush :
    ¬ IsReportStatus ["refs/heads/master"]
      (postRequestHandler .allDelivered smallPush 2 (Served.nothing.changeRepoState true)).2.output :=
  never_a_report .allDelivered smallPush 2 ["refs/heads/master"] (by simp)

/-- When everything succeeds, the reference is reported behind the flush
packet, and nothing comes after it. -/
theorem report_ends_without_flush :
    (postRequestHandler .allDelivered smallPush 2
        (Served.nothing.changeRepoState true)).2.output =
      [.line "unpack ok\n", .flush, .line "ok refs/heads/master\n"] ∧
    ¬ IsReportStatus ["refs/heads/master"]
      (postRequestHandler .allDelivered smallPush 2
        (Served.nothing.changeRepoState true)).2.output := by
  have houtput : (postRequestHandler .allDelivered smallPush 2
      (Served.nothing.changeRepoState true)).2.output =
        [.line "unpack ok\n", .flush, .line "ok refs/heads/master\n"] := by rfl
  refine ⟨houtput, ?_⟩
  rw [houtput]
  rintro ⟨result, lines, hlines, -⟩
  have hlast := congrArg List.getLast? hlines
  rw [← List.cons_append, List.getLast?_concat] at hlast
  cases hlast

end GitRpc.Frontend
