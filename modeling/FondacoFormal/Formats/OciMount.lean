import FondacoFormal.Access.Compiled
import FondacoFormal.Formats.OciClosure
import FondacoFormal.Formats.OciRead

/-!
# Mounting a blob

A push asks the server to take a blob it has already instead of uploading it. The server only
looks whether the store has the blob; nobody asks whether the caller can read it anywhere.
-/

namespace FondacoFormal.Formats.Oci

open Library Library.Runs Repl Pipeline Server Api Auth Access

/-! ## What a sequence of requests sends -/

def PushStep.By (id : Identity) : PushStep → Prop
  | receive _ _ identity _ => identity = id
  | advance _ => True

def PushStep.body : PushStep → Option Bytes
  | receive _ _ _ req => some req.body
  | advance _ => none

def Composed (sent : List Bytes) (content : Bytes) : Prop :=
  ∃ parts : List Bytes, (∀ part ∈ parts, part ∈ sent) ∧ content = parts.flatten

variable {body : Bytes} {sent : List Bytes}

theorem Composed.of_mem (hmem : body ∈ sent) : Composed sent body :=
  ⟨[body], fun part hpart => List.mem_singleton.1 hpart ▸ hmem, by simp⟩

variable {content : Bytes}

theorem Composed.append (composed : Composed sent content) (hmem : body ∈ sent) :
    Composed sent (content ++ body) := by
  obtain ⟨parts, hparts, rfl⟩ := composed
  refine ⟨parts ++ [body], ?_, by simp⟩
  rw [List.forall_mem_append, List.forall_mem_singleton]
  exact ⟨hparts, hmem⟩

structure Fresh (start : Home) (session : String) : Prop where
  staging : startsWith "uploads/" session = true
  empty : ∀ key, startsWith session key = true → start.objects.find key = none

def completes (req : Request) : Bool :=
  req.method = "POST" || req.method = "PUT"

def Withholds (r : Registry) (sent : List Bytes) (sha256 : String) (w : Pushing) :
    PushStep → Prop
  | .receive .. => True
  | .advance i => ∀ call key content opts next, w.calls i = some call →
      call.handling = .ask (.put key content opts) next → Composed sent content →
        r.hash content ≠ sha256

/-- What a request may ask for: a blob to mount that its caller can read, and the chunks of an
upload that the sequence began. -/
def Entitled (r : Registry) (readers : Readers) (start : Home) (sha256 : String) (h : Home)
    (call : PushCall) : Ask → Prop
  | .stat key => key = Storage.blobKey sha256 → (h.objects.find key).isSome = true →
      CanRead r readers call.identity h sha256
  | .list session => completes call.request = true → Fresh start session
  | _ => True

def Discreet (r : Registry) (readers : Readers) (start : Home) (sha256 : String) (w : Pushing) :
    PushStep → Prop
  | .receive .. => True
  | .advance i => ∀ call what next, w.calls i = some call → call.handling = .ask what next →
      Entitled r readers start sha256 w.home call what

/-! ## What a module does with it -/

section

/- The sequence sends `sent`, begins at `start`, and `sha256` is the digest at stake. -/
variable (r : Registry) (start : Home) (sent : List Bytes) (sha256 : String)

def Sends : Ask → Prop
  | .put key content _ => Composed sent content ∧
      (startsWith "uploads/" key = true ∧ content ∈ sent ∨ ∃ named, key = Storage.blobKey named)
  | _ => True

def Heard (completing : Bool) : (what : Ask) → Except Failure what.Reply → Prop
  | .stat key, answer => ∀ size, answer = .ok size → key ≠ Storage.blobKey sha256
  | .get key, answer => ∀ session, Fresh start session → startsWith session key = true →
      ∀ content, answer = .ok content → content ∈ sent
  | .put _ content opts, answer => answer = .ok () →
      Storage.verify r.hash opts content = none ∧ r.hash content ≠ sha256
  | .list session, answer => ∀ parts : List (String × Nat), answer = .ok parts →
      (completing = true → Fresh start session) ∧
        ∀ part ∈ parts, startsWith session part.1 = true
  | _, _ => True

/-- With such answers the module puts only what was sent and never publishes the digest. -/
def Innocent (completing : Bool) : Handling → Prop
  | .respond _ => True
  | .fail _ => True
  | .ask what next => Sends sent what ∧
      ∀ answer, Heard r start sent sha256 completing what answer → Innocent completing (next answer)
  | .publish req next => req.sha256 ≠ sha256 ∧ ∀ result, Innocent completing (next result)

def innocence (completing : Bool) : Conduct where
  asks := Sends sent
  hears := Heard r start sent sha256 completing
  publishes req := req.sha256 ≠ sha256

end

section

variable {r : Registry} {start : Home} {sent : List Bytes} {sha256 feed repo : String}
  {completing : Bool} {req : Request}

theorem innocent_of_keeps {handling : Handling}
    (keeps : (innocence r start sent sha256 completing).Keeps handling) :
    Innocent r start sent sha256 completing handling := by
  induction keeps with
  | respond | fail => trivial
  | ask hsends _ ih => exact ⟨hsends, ih⟩
  | publish hother _ ih => exact ⟨hother, ih⟩

theorem innocence_completes (hhash : ∀ content, hexDigits (r.hash content) = true)
    (feed repo uploadID : String) :
    Completes (innocence r start sent sha256 true) (Composed sent) feed repo uploadID where
  lists := trivial
  parts := by
    intro parts heard part hmem
    obtain ⟨hfresh, hparts⟩ := heard parts rfl
    refine ⟨trivial, trivial, fun content chunk composed hchunk => composed.append ?_⟩
    exact hchunk _ (hfresh rfl) (hparts part hmem) chunk rfl
  empty := ⟨[], List.forall_mem_nil _, rfl⟩
  commits := by
    intro digest algo hex hparse content composed size contentType
    obtain ⟨-, ⟨hdigits, hsome⟩, -⟩ := parseDigest_eq_some hparse
    refine ⟨⟨composed, .inr ⟨hex, rfl⟩⟩, fun heard req blob => ?_⟩
    obtain ⟨hverify, hother⟩ := heard rfl
    rw [hash_of_verify (hhash content) hdigits hsome hverify, ← blob.sha256] at hother
    exact hother

theorem sends_partKey {repo uploadID : String} (hbody : req.body ∈ sent) (offset : Nat) :
    Sends sent (.put (partKey feed repo uploadID offset) req.body {}) :=
  ⟨.of_mem hbody, .inl ⟨staging_partKey feed repo uploadID offset, hbody⟩⟩

variable {next : Handling}

theorem requirePublished_innocent (hnext : Innocent r start sent sha256 completing next)
    (paths : List String) :
    Innocent r start sent sha256 completing (requirePublished next paths) := by
  induction paths with
  | nil => exact hnext
  | cons path rest ih =>
    refine ⟨trivial, ?_⟩
    rintro (error | rows) -
    · trivial
    · dsimp only
      split
      · exact ih
      · trivial

theorem storeManifest_innocent {reference mediaType : String} (hbody : body ∈ sent) :
    Innocent r start sent sha256 completing
      (storeManifest feed repo reference mediaType (r.hash body) body) := by
  refine ⟨⟨.of_mem hbody, .inr ⟨_, rfl⟩⟩, ?_⟩
  rintro (error | done) heard
  · trivial
  · have hother := (heard rfl).2
    refine ⟨hother, ?_⟩
    rintro (error | done)
    · trivial
    · split
      · trivial
      · refine ⟨hother, ?_⟩
        rintro (error | done)
        · trivial
        · trivial

theorem putManifest_innocent {reference : String} (hbody : req.body ∈ sent) :
    Innocent r start sent sha256 completing
      (putManifest r.hash r.unmarshal feed repo reference req) := by
  rw [putManifest]
  split
  · trivial
  · split
    · trivial
    · dsimp only
      generalize (if req.headers.contentType.val = "" then _ else _) = mediaType
      split
      · trivial
      · split
        · trivial
        · exact requirePublished_innocent (storeManifest_innocent hbody) _

theorem handlePublishHTTP_innocent (hhash : ∀ content, hexDigits (r.hash content) = true)
    (hbody : req.body ∈ sent) :
    Innocent r start sent sha256 (completes req)
      (handlePublishHTTP r.hash r.unmarshal feed req) := by
  rw [handlePublishHTTP]
  split
  · trivial
  · split
    · trivial
    · cases parseRef ((textOf (trimSlash req.path)).toList.drop 3) with
      | error error => trivial
      | ok ref =>
        dsimp only
        rw [dispatch]
        split
        · next hmethod hkind =>
            rw [completes, hmethod]
            refine innocent_of_keeps (startUpload_keeps trivial (fun uploadID =>
              ⟨innocence_completes hhash feed ref.repo uploadID, sends_partKey hbody 0⟩) ?_)
            refine fun digest algo hex _ => ⟨trivial, fun size heard req blob hsame => ?_⟩
            exact heard size rfl (congrArg Storage.blobKey (blob.sha256.symm.trans hsame))
        · trivial
        · split
          · trivial
          · exact innocent_of_keeps (appendChunk_keeps trivial (sends_partKey hbody))
        · split
          · trivial
          · next hmethod hkind _ =>
              rw [completes, hmethod]
              exact innocent_of_keeps
                (finishUpload_keeps (innocence_completes hhash ..) (sends_partKey hbody))
        · exact putManifest_innocent hbody
        · trivial
        · split
          · exact innocent_of_keeps
              (deleteParts_keeps trivial (.respond _) fun _ _ _ _ => trivial)
          · trivial
        · trivial

end

/-! ## The site -/

/-- As far as the digest goes, nothing is new at the site, and what is staged in the sessions of
the sequence was sent. -/
structure Kept (r : Registry) (start : Home) (sent : List Bytes) (sha256 : String) (h : Home) :
    Prop where
  quarantine : h.site.quarantine = start.site.quarantine
  content : ∀ content, Holds r h sha256 content → Holds r start sha256 content
  named : ∀ key, Named h key sha256 → Named start key sha256
  staged : ∀ session key content, Fresh start session → startsWith session key = true →
    h.objects.find key = some content → content ∈ sent

def Cleared (r : Registry) (start : Home) (sha256 : String) (completing : Bool) (h : Home) :
    Ask → Prop
  | .stat key => key = Storage.blobKey sha256 → h.objects.find key = none
  | .put _ content _ => r.hash content ≠ sha256
  | .list session => completing = true → Fresh start session
  | _ => True

variable {opts : Storage.PutOpts} {readers : Readers} {key : String} {feed : String} {core : Core}
  {what : Ask}

section

variable {r : Registry} {start h later : Home} {sent : List Bytes} {sha256 : String}
  {completing : Bool}

theorem Kept.refl (r : Registry) (start : Home) (sent : List Bytes) (sha256 : String) :
    Kept r start sent sha256 start where
  quarantine := rfl
  content := fun _ => id
  named := fun _ => id
  staged := fun session key content fresh hkey hfind => by
    rw [fresh.empty key hkey] at hfind
    cases hfind

section

variable (kept : Kept r start sent sha256 h)

include kept

theorem Kept.canRead {id : Identity} (readable : CanRead r readers id h sha256) :
    CanRead r readers id start sha256 := by
  obtain ⟨fr, intent, readable⟩ := readable
  obtain ⟨content, holds, hserve⟩ := readable.content
  have hfree := readable.free
  rw [quarantineOf, kept.quarantine] at hfree
  exact ⟨fr, intent, { readable with
    free := hfree
    manifest := kept.named _ readable.manifest
    content := ⟨content, kept.content content holds, hserve⟩ }⟩

theorem Kept.fewer (hsite : later.site = h.site) (hprojections : later.projections = h.projections)
    (hobjects : ∀ key content, later.objects.find key = some content →
      h.objects.find key = some content) : Kept r start sent sha256 later where
  quarantine := by rw [hsite, kept.quarantine]
  content := fun content holds => kept.content content ⟨hobjects _ _ holds.1, holds.2⟩
  named := fun key named => by
    rw [Named, hprojections] at named
    exact kept.named key named
  staged := fun session key content fresh hkey hfind =>
    kept.staged session key content fresh hkey (hobjects key content hfind)

theorem Kept.ticked (ticks : Nat) : Kept r start sent sha256 { h with ticks := ticks } :=
  kept.fewer rfl rfl fun _ _ => id

theorem Kept.put (sends : Sends sent (.put key content opts)) (hother : r.hash content ≠ sha256)
    (hsite : later.site = h.site) (hprojections : later.projections = h.projections)
    (hobjects : later.objects = h.objects.put key content) : Kept r start sent sha256 later where
  quarantine := by rw [hsite, kept.quarantine]
  content := by
    rintro found ⟨hfind, hhash⟩
    rw [hobjects, Table.find_put] at hfind
    split at hfind
    · cases hfind
      exact absurd hhash hother
    · exact kept.content found ⟨hfind, hhash⟩
  named := fun at_ named => by
    rw [Named, hprojections] at named
    exact kept.named at_ named
  staged := by
    intro session other found fresh hother' hfind
    rw [hobjects, Table.find_put] at hfind
    split at hfind
    · next hsame =>
        cases hfind
        rcases sends.2 with ⟨-, hmem⟩ | ⟨named, hnamed⟩
        · exact hmem
        · have hstaging := startsWith_trans fresh.staging hother'
          rw [hsame] at hstaging
          exact absurd hnamed.symm (ne_blobKey_of_staging hstaging named)
    · exact kept.staged session other found fresh hother' hfind

theorem Kept.publish (fr : FeedRuntime) (id : Identity) {req : PublishRequest}
    (hother : req.sha256 ≠ sha256) :
    Kept r start sent sha256 (depsPublish r.server fr id req h).1 := by
  rcases depsPublish_cases r.server fr id req h with
    ⟨ticks, error, heq⟩ | ⟨site, stamp, created, -, hinsert, heq⟩
  · rw [heq]
    exact kept.ticked ticks
  · rw [heq]
    refine ⟨(insert_quarantine hinsert).trans kept.quarantine, kept.content, ?_, kept.staged⟩
    rintro key ⟨m, hfind, hsha⟩
    rw [Core.record] at hfind
    split at hfind
    · exact kept.named key ⟨m, hfind, hsha⟩
    · rw [Table.find_put] at hfind
      split at hfind
      · cases hfind
        exact absurd hsha hother
      · exact kept.named key ⟨m, hfind, hsha⟩

end

theorem heard_error (what : Ask) (error : Failure) :
    Heard r start sent sha256 completing what (.error error) := by
  cases what with
  | stat _ => exact nofun
  | get _ => exact fun _ _ _ => nofun
  | put _ _ _ | list _ => exact nofun
  | delete _ | manifests _ | draw => trivial

variable (hcore : core.hash = r.hash) (kept : Kept r start sent sha256 h)
  (sends : Sends sent what) (cleared : Cleared r start sha256 completing h what)

include hcore kept sends cleared

theorem answer_kept :
    Kept r start sent sha256 (what.answer core feed h).1 ∧
      Heard r start sent sha256 completing what (what.answer core feed h).2 := by
  cases what with
  | stat key =>
    refine ⟨kept, fun size hsize hkey => ?_⟩
    have habsent : (h.object key).map List.length = .ok size := hsize
    rw [Home.object, cleared hkey] at habsent
    cases habsent
  | get key =>
    refine ⟨kept, fun session fresh hkey content hcontent => ?_⟩
    have hobject : h.object key = .ok content := hcontent
    rw [Home.object] at hobject
    split at hobject
    · next found hfind =>
        cases hobject
        exact kept.staged session key _ fresh hkey hfind
    · cases hobject
  | put key content opts =>
    simp only [Ask.answer]
    cases hput : putFailure core key content opts with
    | some error => exact ⟨kept, heard_error _ error⟩
    | none =>
      refine ⟨kept.put sends cleared rfl rfl rfl, fun _ => ⟨?_, cleared⟩⟩
      rw [← hcore]
      exact verify_of_putFailure hput
  | delete key =>
    refine ⟨kept.fewer rfl rfl fun other content hfind => ?_, trivial⟩
    exact Table.find_of_find_keep hfind
  | list session =>
    refine ⟨kept, ?_⟩
    rintro parts hparts
    refine ⟨cleared, fun part hmem => ?_⟩
    cases hparts
    rw [List.mem_insertionSort] at hmem
    obtain ⟨row, hrow, rfl⟩ := List.mem_map.1 hmem
    exact (List.mem_filter.1 hrow).2
  | manifests _ | draw => exact ⟨kept, trivial⟩

theorem run_kept (feed : String) :
    Kept r start sent sha256 (what.run core feed h).1 ∧
      Heard r start sent sha256 completing what (what.run core feed h).2 := by
  rw [Ask.run]
  cases core.fault h.ticks with
  | some error => exact ⟨kept.ticked _, heard_error what error⟩
  | none =>
    have cleared' : Cleared r start sha256 completing { h with ticks := h.ticks + 1 } what := by
      cases what <;> exact cleared
    exact answer_kept hcore (kept.ticked _) sends cleared'

end

/-! ## One step -/

/-- A request under way is one of the identity and does nothing with the digest. -/
structure PushCall.Quiet (r : Registry) (start : Home) (sent : List Bytes) (sha256 : String)
    (id : Identity) (call : PushCall) : Prop where
  identity : call.identity = id
  innocent : Innocent r start sent sha256 (completes call.request) call.handling

/-- The invariant, as long as the digest could not be read at the start. -/
structure Sealed (r : Registry) (start : Home) (sent : List Bytes) (sha256 : String)
    (id : Identity) (w : Pushing) : Prop where
  kept : Kept r start sent sha256 w.home
  calls : ∀ i call, w.calls i = some call → call.Quiet r start sent sha256 id

section

variable {r : Registry} {start : Home} {sent : List Bytes} {sha256 : String} {id : Identity}
  {w : Pushing}

variable {i : Nat} {home : Home}

section

variable (unread : Sealed r start sent sha256 id w)

include unread

theorem Sealed.moves {call : Option PushCall} (kept : Kept r start sent sha256 home)
    (hcall : ∀ c, call = some c → c.Quiet r start sent sha256 id) :
    Sealed r start sent sha256 id { home := home, calls := Function.update w.calls i call } :=
  ⟨kept, forall_calls_update unread.calls hcall⟩

variable {call : PushCall}

theorem Sealed.goesOn (i : Nat) (quiet : call.Quiet r start sent sha256 id) {handling : Handling}
    (kept : Kept r start sent sha256 home)
    (innocent : Innocent r start sent sha256 (completes call.request) handling) :
    Sealed r start sent sha256 id (w.goesOn i call home handling) :=
  unread.moves kept fun c hc => by
    cases hc
    exact ⟨quiet.identity, innocent⟩

/-- `Put` of the S3 store, before and after the comparison. -/
theorem put_sealed {next : Except Failure Unit → Handling}
    (quiet : call.Quiet r start sent sha256 id)
    (hask : call.handling = .ask (.put key content opts) next) (hother : r.hash content ≠ sha256) :
    Sealed r start sent sha256 id (upload r.core w i call key content next) ∧
      Sealed r start sent sha256 id (settle r.core w i call key content opts next) := by
  have innocent := quiet.innocent
  rw [hask] at innocent
  obtain ⟨sends, hnext⟩ := innocent
  have hticked := unread.kept.ticked (w.home.ticks + 1)
  have hfails : ∀ error, Sealed r start sent sha256 id
      (w.goesOn i call { w.home with ticks := w.home.ticks + 1 } (next (.error error))) :=
    fun error => unread.goesOn i quiet hticked (hnext _ (heard_error _ _))
  constructor
  · rw [upload]
    split
    · exact hfails _
    · refine unread.moves (unread.kept.put sends hother rfl rfl rfl) fun c hc => ?_
      cases hc
      exact ⟨quiet.identity, quiet.innocent⟩
  · rw [settle]
    split
    · next fault hverify =>
        refine unread.goesOn i quiet ?_ (hnext _ (heard_error _ _))
        split
        · exact hticked
        · refine unread.kept.fewer rfl rfl fun other found hfind => ?_
          exact Table.find_of_find_keep hfind
    · exact hfails _
    · next hverify hfault =>
        split
        · exact hfails _
        · exact unread.goesOn i quiet hticked (hnext _ fun _ => ⟨hverify, hother⟩)

theorem advance_sealed (hcall : w.calls i = some call)
    (cleared : ∀ what next, call.handling = .ask what next →
      Cleared r start sha256 (completes call.request) w.home what) :
    Sealed r start sent sha256 id (advance r w i call) := by
  have quiet := unread.calls i call hcall
  have innocent := quiet.innocent
  have hends : Sealed r start sent sha256 id (w.ends i) :=
    unread.moves unread.kept fun c hc => by cases hc
  rw [advance]
  split
  · exact hends
  · exact hends
  · next req next hpublish =>
      rw [hpublish] at innocent
      exact unread.goesOn i quiet (unread.kept.publish call.feed call.identity innocent.1)
        (innocent.2 _)
  · next what next hask =>
      have hcleared := cleared what next hask
      split
      · obtain ⟨huploaded, hsettled⟩ := put_sealed unread (i := i) quiet hask hcleared
        split
        · exact hsettled
        · exact huploaded
      · rw [hask] at innocent
        obtain ⟨hkept, heard⟩ := run_kept (rfl : r.core.hash = r.hash) unread.kept innocent.1
          hcleared call.feed.name
        exact unread.goesOn i quiet hkept (innocent.2 _ heard)

end

theorem run_sealed (hhash : ∀ content, hexDigits (r.hash content) = true)
    (hunread : ¬ CanRead r readers id start sha256) (unread : Sealed r start sent sha256 id w)
    (step : PushStep) (hby : step.By id) (hbody : ∀ body, step.body = some body → body ∈ sent)
    (withholds : Withholds r sent sha256 w step)
    (discreet : Discreet r readers start sha256 w step) :
    Sealed r start sent sha256 id (step.run r w) := by
  cases step with
  | receive i fr identity req =>
    rw [PushStep.run]
    split
    · exact unread
    · have innocent : Innocent r start sent sha256 (completes req)
          (handlePublishHTTP r.hash r.unmarshal fr.name req) :=
        handlePublishHTTP_innocent hhash (hbody req.body rfl)
      refine unread.moves unread.kept fun c hc => ?_
      cases hc
      constructor
      · exact hby
      · exact innocent
  | advance i =>
    rw [PushStep.run]
    split
    · exact unread
    · next call hcall =>
        refine advance_sealed unread hcall fun what next hask => ?_
        have quiet := unread.calls i call hcall
        have entitled := discreet call what next hcall hask
        cases what with
        | stat key =>
          intro hkey
          rw [← Option.not_isSome_iff_eq_none]
          intro hfound
          have hreads := entitled hkey hfound
          rw [quiet.identity] at hreads
          exact hunread (unread.kept.canRead hreads)
        | put key content opts =>
          have innocent := quiet.innocent
          rw [hask] at innocent
          exact withholds call key content opts next hcall hask innocent.1.1
        | list session => exact entitled
        | get _ | delete _ | manifests _ | draw => trivial

/-! ## Whole runs -/

/-- A sequence of requests of one identity that never sends the bytes of a digest, mounts only what
the identity can read and completes only uploads it began makes the digest readable only if the
identity could read it before. -/
theorem reads_only_what_was_readable (hhash : ∀ content, hexDigits (r.hash content) = true)
    (readers : Readers) (id : Identity) (sha256 : String) (start : Home) (steps : List PushStep)
    (hby : ∀ step ∈ steps, step.By id)
    (withholds : Meets (PushStep.run r) (Withholds r (steps.filterMap PushStep.body) sha256) steps
      { home := start })
    (discreet : Meets (PushStep.run r) (Discreet r readers start sha256) steps { home := start })
    (readable : CanRead r readers id (runAll (PushStep.run r) steps { home := start }).home
      sha256) :
    CanRead r readers id start sha256 := by
  by_contra hunread
  have hsent : Meets (PushStep.run r) (fun _ step => step.By id ∧ ∀ body, step.body = some body →
      body ∈ steps.filterMap PushStep.body) steps { home := start } :=
    meets_of_forall (fun step hmem _ => ⟨hby step hmem, fun body hbody =>
      List.mem_filterMap.2 ⟨step, hmem, hbody⟩⟩) _
  have hstart : Sealed r start (steps.filterMap PushStep.body) sha256 id { home := start } :=
    ⟨Kept.refl .., fun i call hcall => by cases hcall⟩
  have unread := invariant_runAll (P := Sealed r start (steps.filterMap PushStep.body) sha256 id)
    (fun w step unread hmet => run_sealed hhash hunread unread step hmet.1.1 hmet.1.2 hmet.2.1
      hmet.2.2) hstart (hsent.and (withholds.and discreet))
  exact hunread (unread.kept.canRead readable)

end

/-! ## A layer of another feed -/

/-- Everyone may push to `hub` and read from it; other rules may follow. -/
def mountEngine (rules : List Rule) : Engine where
  policies := [⟨"all", ⟨"feed/hub/*", [.publish, .read], "all"⟩ :: rules⟩]
  bindings := [⟨"", ["all"], {}⟩]

def mountRegistry (rules : List Rule) : Registry :=
  { plainRegistry with server := { imageServer with engine := mountEngine rules } }

def imageReader (name : String) : ReadFeed where
  feed := { name := name, format := "oci", hosted := true }
  module := { name := "oci", parse := parse }
  chain := .empty
  hosted := true

def mountReaders : Readers where
  feeds := [imageReader "hub", imageReader "vault"]
  facts _ _ := []

/-- Repository `a` of the feed `vault` has a layer. -/
def vaultHome : Home where
  objects := Table.put ∅ (Storage.blobKey zerosDigest) (List.replicate 32 0)
  projections := Table.put ∅ ("vault", blobPath "a" ("sha256:" ++ zerosDigest))
    { sha256 := zerosDigest, size := 32, checksums := [], ingestedAt := 0, origin := "publish",
      site := "here", publisher := "", metadata := {} }

def pusher : Identity := { kind := .token, subject := "t" }

/-- The layer is mounted into repository `a` of `hub`. -/
def mountSteps : List PushStep :=
  [.receive 0 imageFeed pusher mountLayer, .advance 0, .advance 0]

def layerSummary (feed : String) (h : Home) : Option String × Option Bytes × Bool :=
  ((h.projections.find (feed, blobPath "a" ("sha256:" ++ zerosDigest))).map Manifest.sha256,
    h.objects.find (Storage.blobKey zerosDigest), h.site.quarantine.rows.isEmpty)

def layerThere : Option String × Option Bytes × Bool :=
  (some zerosDigest, some (List.replicate 32 0), true)

def layerIntent : Intent :=
  blobIntent "a" (blobPath "a" ("sha256:" ++ zerosDigest)) "sha256" zerosDigest

def layerRequest : ReadRequest where
  method := "GET"
  path := "/" ++ blobPath "a" ("sha256:" ++ zerosDigest)

/-- The request for the layer parses, and the layer is the content with its digest. -/
theorem layer_facts :
    (parse layerRequest = .ok layerIntent ∧ validRemotePath layerIntent.remotePath = true) ∧
      hexOf (List.replicate 32 0) = zerosDigest ∧ hexOf [] ≠ zerosDigest := by
  decide +kernel

theorem readableAt_of_summary (rules : List Rule) {h : Home}
    (hfeed : imageReader feed ∈ mountReaders.feeds)
    (haccess : (mayServe (mountEngine rules) pusher feed layerIntent).allowed = true)
    (hsummary : layerSummary feed h = layerThere) :
    ReadableAt (mountRegistry rules) mountReaders pusher h (imageReader feed) "a" zerosDigest := by
  obtain ⟨hmanifest, hrest⟩ := Prod.ext_iff.1 hsummary
  obtain ⟨hbytes, hquarantine⟩ := Prod.ext_iff.1 hrest
  obtain ⟨m, hm, hsha⟩ := Option.map_eq_some_iff.1 hmanifest
  have hempty : h.site.quarantine.rows = [] := List.isEmpty_iff.1 hquarantine
  exact ⟨layerIntent, rfl,
    { mounted := hfeed
      parsed := ⟨layerRequest, layer_facts.1.1⟩
      bytes := rfl
      valid := layer_facts.1.2
      access := haccess
      free := by rw [quarantineOf, hempty]; rfl
      resolve := rfl
      manifest := ⟨m, hm, hsha⟩
      content := ⟨List.replicate 32 0, ⟨hbytes, layer_facts.2.1⟩, rfl⟩ }⟩

theorem mountSteps_withholds (rules : List Rule) (start : Pushing) :
    Meets (PushStep.run (mountRegistry rules))
      (Withholds (mountRegistry rules) (mountSteps.filterMap PushStep.body) zerosDigest) mountSteps
      start := by
  refine meets_of_forall (fun step hmem w => ?_) _
  cases step with
  | receive i fr identity req => trivial
  | advance i =>
    rintro call key content opts next - - ⟨parts, hparts, rfl⟩
    have hempty : parts.flatten = [] := by
      rw [List.flatten_eq_nil_iff]
      intro part hpart
      exact List.mem_singleton.1 (hparts part hpart)
    rw [hempty]
    exact layer_facts.2.2

def mounting (rules : List Rule) (n : Nat) : Pushing :=
  runAll (PushStep.run (mountRegistry rules)) (mountSteps.take n) { home := vaultHome }

/-- The pusher may read `vault` as well. -/
def vaultRule : Rule := ⟨"feed/vault/*", [.read], "all"⟩

def notListing (w : Pushing) : Bool :=
  match w.calls 0 with
  | some call =>
    call.identity = pusher &&
      match call.handling with
      | .ask (.list _) _ => false
      | _ => true
  | none => true

/-- Before each step of the mount the pusher may read the layer in `vault`. -/
theorem mounting_asks :
    (mayServe (mountEngine [vaultRule]) pusher "vault" layerIntent).allowed = true ∧
      ∀ n ∈ [1, 2], (notListing (mounting [vaultRule] n),
        layerSummary "vault" (mounting [vaultRule] n).home) = (true, layerThere) := by
  decide +kernel

/-- After the mount the layer is in `hub`, whether or not `vault` may be read. -/
theorem mounted_in_hub : ∀ rules ∈ [[vaultRule], []],
    (mayServe (mountEngine rules) pusher "hub" layerIntent).allowed = true ∧
      layerSummary "hub" (mounting rules 3).home = layerThere := by
  decide +kernel

/-- Whoever may read `vault` can read the layer there. -/
theorem vault_canRead {h : Home} (hsummary : layerSummary "vault" h = layerThere) :
    CanRead (mountRegistry [vaultRule]) mountReaders pusher h zerosDigest :=
  (readableAt_of_summary [vaultRule] (List.mem_cons_of_mem _ List.mem_cons_self) mounting_asks.1
    hsummary).canRead

theorem discreet_of_notListing {w : Pushing}
    (hasks : (notListing w, layerSummary "vault" w.home) = (true, layerThere)) :
    Discreet (mountRegistry [vaultRule]) mountReaders vaultHome zerosDigest w (.advance 0) := by
  obtain ⟨hlisting, hsummary⟩ := Prod.ext_iff.1 hasks
  intro call what next hcall hask
  have hkind : notListing w = true := hlisting
  rw [notListing, hcall] at hkind
  obtain ⟨hidentity, hkind⟩ := Bool.and_eq_true_iff.1 hkind
  rw [hask] at hkind
  cases what with
  | stat key =>
    rintro - -
    rw [of_decide_eq_true hidentity]
    exact vault_canRead hsummary
  | list session => cases hkind
  | get _ | put _ _ _ | delete _ | manifests _ | draw => trivial

theorem mountSteps_by : ∀ step ∈ mountSteps, step.By pusher := by
  simp [mountSteps, PushStep.By]

theorem mountSteps_discreet :
    Meets (PushStep.run (mountRegistry [vaultRule]))
      (Discreet (mountRegistry [vaultRule]) mountReaders vaultHome zerosDigest) mountSteps
      { home := vaultHome } := by
  constructor
  · trivial
  constructor
  · exact discreet_of_notListing (mounting_asks.2 1 List.mem_cons_self)
  constructor
  · exact discreet_of_notListing (mounting_asks.2 2 (List.mem_cons_of_mem _ List.mem_cons_self))
  · trivial

theorem hub_readableAt {rules : List Rule} (hrules : rules ∈ [[vaultRule], []]) :
    ReadableAt (mountRegistry rules) mountReaders pusher (mounting rules 3).home
      (imageReader "hub") "a" zerosDigest :=
  readableAt_of_summary rules List.mem_cons_self (mounted_in_hub rules hrules).1
    (mounted_in_hub rules hrules).2

/-- A layer of `vault` is mounted by someone who can read it there. -/
theorem mounts_a_readable_layer :
    ReadableAt (mountRegistry [vaultRule]) mountReaders pusher (mounting [vaultRule] 3).home
        (imageReader "hub") "a" zerosDigest ∧
      CanRead (mountRegistry [vaultRule]) mountReaders pusher vaultHome zerosDigest := by
  have hreadable := hub_readableAt (List.mem_cons_self (a := [vaultRule]) (l := [[]]))
  exact ⟨hreadable, reads_only_what_was_readable (r := mountRegistry [vaultRule])
    hexOf_digests.hexDigits mountReaders pusher zerosDigest vaultHome mountSteps mountSteps_by
    (mountSteps_withholds _ _) mountSteps_discreet hreadable.canRead⟩

/-- A rule for `hub` says nothing of `vault`. -/
theorem hub_rule_elsewhere (coordinate : String) :
    matchPath "feed/hub/*" (feedPath "vault" coordinate) = none := by
  have hpattern : "feed/hub/*".toList = ['f', 'e', 'e', 'd', '/', 'h', 'u', 'b', '/', '*'] := by
    decide
  have hstem : cutStar ['f', 'e', 'e', 'd', '/', 'h', 'u', 'b', '/', '*'] =
      (['f', 'e', 'e', 'd', '/', 'h', 'u', 'b', '/'], true) := by decide
  have hsegments : splitPath ['f', 'e', 'e', 'd', '/', 'h', 'u', 'b', '/'] =
      [['f', 'e', 'e', 'd'], ['h', 'u', 'b'], []] := by decide
  have hfeed : "feed".toList = ['f', 'e', 'e', 'd'] := by decide
  have hvault : "vault".toList = ['v', 'a', 'u', 'l', 't'] := by decide
  rw [matchPath, splitPath_feedPath (by decide), hpattern, hstem, hfeed, hvault]
  dsimp only
  rw [hsegments]
  simp [matchSegments]

theorem vault_denied (id : Identity) (intent : Intent) :
    (mayServe (mountEngine []) id "vault" intent).allowed ≠ true := by
  intro hallowed
  obtain ⟨⟨rule, ⟨hrule, score, hmatch, -⟩, -⟩, -⟩ := allowed_iff.1 hallowed
  rw [List.mem_singleton.1 hrule, hub_rule_elsewhere] at hmatch
  cases hmatch

/-- A layer of `vault` is mounted by someone who may not read `vault`. -/
theorem mounts_an_unreadable_layer :
    (∀ step ∈ mountSteps, step.By pusher) ∧
      Meets (PushStep.run (mountRegistry []))
        (Withholds (mountRegistry []) (mountSteps.filterMap PushStep.body) zerosDigest) mountSteps
        { home := vaultHome } ∧
      ReadableAt (mountRegistry []) mountReaders pusher (mounting [] 3).home
        (imageReader "hub") "a" zerosDigest ∧
      ¬ CanRead (mountRegistry []) mountReaders pusher vaultHome zerosDigest := by
  have hreadable := hub_readableAt (List.mem_cons_of_mem [vaultRule] (List.mem_singleton_self []))
  refine ⟨mountSteps_by, mountSteps_withholds _ _, hreadable, ?_⟩
  rintro ⟨fr, intent, readable⟩
  rcases List.mem_pair.1 readable.mounted with rfl | rfl
  · obtain ⟨m, hm, -⟩ := readable.manifest
    rw [vaultHome, Table.find_put_of_ne] at hm
    · cases hm
    · exact fun heq => absurd (Prod.ext_iff.1 heq).1 (show ("hub" : String) ≠ "vault" by decide)
  · exact vault_denied pusher intent readable.access

end FondacoFormal.Formats.Oci
