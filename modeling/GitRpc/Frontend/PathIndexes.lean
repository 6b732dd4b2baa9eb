import GitRpc.Frontend.HttpHandler

/-!
The handling of a request once more, with every index into a split path or a
split command line looked up where the code looks it up, and with the reason of
a panic.
-/

namespace GitRpc.Frontend.Indexing

/-- Why a request ends in a panic: an index out of range, `panic(e)` for the
storage, or a method of a nil `refs`. -/
inductive Cause where
  | indexOutOfRange
  | storage
  | nilReferences
  deriving DecidableEq

inductive Ending where
  | running
  | returned
  | panicked (cause : Cause)
  deriving DecidableEq

def Ending.exit : Ending → Exit
  | running => .running
  | returned => .returned
  | panicked _ => .panicked

def getRepoName (requestURL : String) : Option String :=
  let urlParts := strings.split '/' requestURL
  urlParts[2]?

/-- The loop body of `packUpload`; `none` is an index out of range. -/
def addLine (parsed : ParsedRefs) (lineStr : String) : Option ParsedRefs :=
  let lineParts := strings.split ' ' lineStr
  if lineParts.length < 3 then some parsed
  else
    match lineParts[2]? with
    | none => none
    | some name =>
        let refName := strings.trimSuffix name '\x00'
        match lineParts[1]? with
        | none => none
        | some newId =>
            some ⟨parsed.names ++ [refName], Function.update parsed.refs refName newId⟩

def packUpload (net : Network) (request : HttpRequest) (fuel : Nat) (r : Served) :
    Ending × Served :=
  match request.lines with
  | none => (.returned, r)
  | some lines =>
      match lines.foldlM addLine ⟨[], fun _ => ""⟩ with
      | none => (.panicked .indexOutOfRange, r)
      | some parsed =>
          match unbufferedWriteStream net request.body fuel with
          | (.running, w) => (.running, r.encode w.output)
          | (.returned false, w) => (.returned, r.encode w.output)
          | (.returned true, w) =>
              (.returned, writeReferences net parsed.refs 0 parsed.names (r.encode w.output))

def postRequestHandler (net : Network) (request : HttpRequest) (fuel : Nat) (r : Served) :
    Ending × Served :=
  let arr := strings.split '/' request.path
  match arr[3]? with
  | none => (.panicked .indexOutOfRange, r)
  | some service =>
      if service = "git-receive-pack" then packUpload net request fuel r else (.returned, r)

def getRequestHandler (world : World) (request : HttpRequest) (r : Served) : Ending × Served :=
  let r := r.encode [.line ("# service=" ++ request.service ++ "\n"), .flush]
  if request.service = "git-receive-pack" ∧ world.listing = .noReferences then
    (.panicked .nilReferences, r)
  else (.returned, r)

def gitHTTPHandler (world : World) (request : HttpRequest) (fuel : Nat) : Ending × Served :=
  match getRepoName request.path with
  | none => (.panicked .indexOutOfRange, .nothing)
  | some repoName =>
      if repoName ≠ "" then
        if world.storageFails then (.panicked .storage, .nothing)
        else
          let r := Served.nothing.changeRepoState true
          if request.method = "GET" then getRequestHandler world request r
          else if request.method = "POST" then postRequestHandler world.net request fuel r
          else (.returned, r)
      else (.returned, .nothing)

/-- What the router sends to the handler of "/git/*". -/
def Routed (request : HttpRequest) : Prop := "/git/".toList <+: request.path.toList

instance : DecidablePred Routed := fun request =>
  inferInstanceAs (Decidable ("/git/".toList <+: request.path.toList))

/-- The command lines are guarded by their length. -/
theorem addLine_eq (parsed : ParsedRefs) (lineStr : String) :
    addLine parsed lineStr = some (parsed.addLine lineStr) := by
  unfold addLine ParsedRefs.addLine
  rcases strings.split ' ' lineStr with _ | ⟨oldId, _ | ⟨newId, _ | ⟨name, more⟩⟩⟩
  · rfl
  · rfl
  · rfl
  · simp

theorem foldlM_addLine (parsed : ParsedRefs) (lines : List String) :
    lines.foldlM addLine parsed = some (lines.foldl ParsedRefs.addLine parsed) := by
  induction lines generalizing parsed with
  | nil => rfl
  | cons lineStr rest ih =>
      rw [List.foldlM_cons, addLine_eq, Option.bind_eq_bind, Option.bind_some, ih,
        List.foldl_cons]

variable {net : Network} {world : World} {request : HttpRequest} {fuel : Nat} {r : Served}

/-- A push is served as before, and ends in no panic. -/
theorem packUpload_ending :
    Prod.map Ending.exit id (packUpload net request fuel r) =
        Frontend.packUpload net request fuel r ∧
      ∀ cause, (packUpload net request fuel r).1 ≠ .panicked cause := by
  unfold packUpload Frontend.packUpload
  cases request.lines with
  | none => exact ⟨rfl, by simp⟩
  | some lines =>
      simp only [foldlM_addLine, parseCommands]
      rcases unbufferedWriteStream net request.body fuel with ⟨verdict, w⟩
      cases verdict with
      | running => exact ⟨rfl, by simp⟩
      | returned result =>
          cases result with
          | false => exact ⟨rfl, by simp⟩
          | true => exact ⟨rfl, by simp⟩

theorem postRequestHandler_exit :
    Prod.map Ending.exit id (postRequestHandler net request fuel r) =
      Frontend.postRequestHandler net request fuel r := by
  unfold postRequestHandler Frontend.postRequestHandler
  dsimp only
  cases (strings.split '/' request.path)[3]? with
  | none => rfl
  | some service =>
      by_cases hpush : service = "git-receive-pack"
      · simpa [hpush] using packUpload_ending.1
      · simp [hpush, Ending.exit]

theorem getRequestHandler_exit :
    Prod.map Ending.exit id (getRequestHandler world request r) =
      Frontend.getRequestHandler world request r := by
  unfold getRequestHandler Frontend.getRequestHandler
  dsimp only
  split <;> rfl

/-- Without the causes of its panics this is the handler. -/
theorem gitHTTPHandler_exit :
    Prod.map Ending.exit id (gitHTTPHandler world request fuel) =
      Frontend.gitHTTPHandler world request fuel := by
  unfold gitHTTPHandler Frontend.gitHTTPHandler getRepoName
  dsimp only
  cases (strings.split '/' request.path)[2]? with
  | none => rfl
  | some repoName =>
      dsimp only
      split
      · split
        · rfl
        · split
          · exact getRequestHandler_exit
          · split
            · exact postRequestHandler_exit
            · rfl
      · rfl

/-- A POST is out of range exactly on a path of three parts or fewer. -/
theorem postRequestHandler_in_range_iff :
    (postRequestHandler net request fuel r).1 ≠ .panicked .indexOutOfRange ↔
      4 ≤ (strings.split '/' request.path).length := by
  unfold postRequestHandler
  dsimp only
  cases hservice : (strings.split '/' request.path)[3]? with
  | none =>
      rw [List.getElem?_eq_none_iff] at hservice
      simp
      omega
  | some service =>
      obtain ⟨hlength, -⟩ := List.getElem?_eq_some_iff.mp hservice
      refine iff_of_true ?_ hlength
      dsimp only
      split
      · exact packUpload_ending.2 _
      · simp

theorem getRequestHandler_in_range :
    (getRequestHandler world request r).1 ≠ .panicked .indexOutOfRange := by
  unfold getRequestHandler
  dsimp only
  split <;> simp

/-- A path below "/git/" has at least three parts. -/
theorem three_le_of_routed (hrouted : Routed request) :
    3 ≤ (strings.split '/' request.path).length := by
  obtain ⟨rest, hpath⟩ := hrouted
  have hparts : request.path.toList.splitOn '/' = [] :: "git".toList :: rest.splitOn '/' := by
    have hroot : "/git/".toList ++ rest = [] ++ '/' :: ("git".toList ++ '/' :: rest) := rfl
    rw [← hpath, hroot, List.splitOn_append_cons_self_of_not_mem (by simp),
      List.splitOn_append_cons_self_of_not_mem (by decide)]
  have hrest := List.length_pos_of_ne_nil (List.splitOn_ne_nil '/' rest)
  rw [strings.split, List.length_map, hparts, List.length_cons, List.length_cons]
  omega

/-- For every method, every path below "/git/", every body and whatever fails
on the way: no index is out of range, exactly when the path of a POST that opens
a repository has a fourth part. -/
theorem gitHTTPHandler_in_range_iff (world : World) (request : HttpRequest)
    (hrouted : Routed request) :
    (∀ fuel, (gitHTTPHandler world request fuel).1 ≠ .panicked .indexOutOfRange) ↔
      (Opens world request → request.method = "POST" →
        4 ≤ (strings.split '/' request.path).length) := by
  have hthree := three_le_of_routed hrouted
  obtain ⟨repoName, hname⟩ : ∃ repoName, (strings.split '/' request.path)[2]? = some repoName :=
    ⟨_, List.getElem?_eq_getElem hthree⟩
  have hhandler : ∀ fuel, gitHTTPHandler world request fuel =
      if repoName ≠ "" then
        if world.storageFails then (.panicked .storage, .nothing)
        else if request.method = "GET" then
          getRequestHandler world request (Served.nothing.changeRepoState true)
        else if request.method = "POST" then
          postRequestHandler world.net request fuel (Served.nothing.changeRepoState true)
        else (.returned, Served.nothing.changeRepoState true)
      else (.returned, .nothing) := by
    intro fuel
    simp [gitHTTPHandler, getRepoName, hname]
  have hopens : Opens world request ↔ world.storageFails = false ∧ repoName ≠ "" := by
    simp [Opens, hname]
  simp only [hhandler, hopens]
  by_cases hrepo : repoName = ""
  · simp [hrepo]
  · cases hstorage : world.storageFails with
    | true => simp [hrepo]
    | false =>
        by_cases hget : request.method = "GET"
        · simp [hrepo, hget, getRequestHandler_in_range]
        · by_cases hpost : request.method = "POST"
          · simp [hrepo, hpost, postRequestHandler_in_range_iff]
          · simp [hrepo, hget, hpost]

/-- A push to the path that git uses. -/
def receivePack : HttpRequest :=
  ⟨"POST", "/git/new-server/git-receive-pack", "", some [], infoRefs.body⟩

theorem receivePack_in_range :
    (gitHTTPHandler ⟨.allDelivered, false, .listed⟩ receivePack 3).1 ≠ .panicked .indexOutOfRange :=
  (gitHTTPHandler_in_range_iff _ receivePack (by decide)).mpr (fun _ _ => by decide) 3

/-- A client pushes to the path of the repository itself. -/
def shortPost : HttpRequest := ⟨"POST", "/git/new-server", "", none, infoRefs.body⟩

/-- The repository has been opened when the index is out of range. -/
theorem shortPost_out_of_range :
    Routed shortPost ∧ gitHTTPHandler ⟨.allDelivered, false, .listed⟩ shortPost 0 =
      (.panicked .indexOutOfRange, Served.nothing.changeRepoState true) := by
  decide

end GitRpc.Frontend.Indexing
