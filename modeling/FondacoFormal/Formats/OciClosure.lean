import FondacoFormal.Formats.OciRows

/-!
# Every image is complete

Whatever pushes are under way, a hosted manifest has its config, its layers and its child
manifests hosted in its repository, with their bytes in the store, and a tag names a hosted
manifest.
-/

namespace FondacoFormal.Formats.Oci

open Library Library.Runs State Repl Pipeline Server

/-! ## The condition -/

def manifestPut (req : Request) : Bool :=
  match parseRef ((textOf (trimSlash req.path)).toList.drop 3) with
  | .ok ref => req.method = "PUT" && ref.kind = .manifest
  | .error _ => false

/-- A `Put` reads what its options announce. -/
def Matches (r : Registry) : Handling → Prop
  | .ask (.put _ content opts) _ => Storage.verify r.hash opts content = none
  | _ => True

/-- The condition on a step: a manifest names digests, and what is put into an S3 store matches. -/
def Careful (r : Registry) (w : Pushing) : PushStep → Prop
  | .receive _ _ _ req => manifestPut req = true →
      ∀ doc, r.unmarshal req.body = .ok doc → NamesDigests doc
  | .advance i => r.backend = .s3 → ∀ call, w.calls i = some call → Matches r call.handling

/-! ## What a request asks for -/

/-- A module writes into its staging area, or bytes under their own digest, and deletes only in
the staging area. -/
def AskFine (r : Registry) : Ask → Prop
  | .put key content opts => startsWith "uploads/" key = true ∨
      ∃ sha256, key = Storage.blobKey sha256 ∧
        (Storage.verify r.hash opts content = none → r.hash content = sha256)
  | .delete key => startsWith "uploads/" key = true
  | _ => True

/-- What an answer to a request for the feed `own` says of `feed`, and goes on saying. -/
def Answered (feed own : String) :
    (what : Ask) → Except Failure what.Reply → Home → Prop
  | .put key content _, answer, h => answer = .ok () →
      ∀ sha256, key = Storage.blobKey sha256 →
        h.objects.find (Storage.blobKey sha256) = some content
  | .list start, answer, _ => ∀ parts : List (String × Nat), answer = .ok parts →
      ∀ part ∈ parts, startsWith start part.1 = true
  | .manifests _, answer, h => own = feed →
      ∀ rows : List (PathKey × HostedRow), answer = .ok rows →
        ∀ row ∈ rows, (rowAt feed row.1.2 h).isSome = true
  | _, _, _ => True

/-- Whatever it is answered and whatever happens in between, a module asks and publishes only what
is justified at that time. -/
def Assured (r : Registry) (feed own : String) : Handling → Home → Prop
  | .respond _, _ => True
  | .fail _, _ => True
  | .ask what next, h => AskFine r what ∧
      ∀ answer later, Grows r feed h later → Answered feed own what answer later →
        Assured r feed own (next answer) later
  | .publish req next, h => req.feed = own ∧
      (own = feed → Placed r feed h req.path req.coord req.sha256) ∧
      ∀ result later, Grows r feed h later →
        (own = feed → ∀ done, result = .ok done → (rowAt feed req.path later).isSome = true) →
        Assured r feed own (next result) later

variable {body : Bytes} {handling : Handling} {uploadID : String} {doc : ManifestDoc}

section

variable {r : Registry} {feed own : String} {h later : Home}

theorem Assured.mono (assured : Assured r feed own handling h) (grows : Grows r feed h later) :
    Assured r feed own handling later := by
  cases handling with
  | respond response | fail error => trivial
  | ask what next =>
    exact ⟨assured.1, fun answer last hgrows hanswer =>
      assured.2 answer last (grows.trans hgrows) hanswer⟩
  | publish req next =>
    exact ⟨assured.1, fun hown => (assured.2.1 hown).mono grows, fun result last hgrows hresult =>
      assured.2.2 result last (grows.trans hgrows) hresult⟩

/-! ## The answers -/

variable {start : String}

theorem startsWith_iff {text : String} :
    startsWith start text = true ↔ start.toList <+: text.toList := by
  rw [startsWith, List.isPrefixOf_iff_prefix]

theorem startsWith_trans {a b c : String} (hab : startsWith a b = true)
    (hbc : startsWith b c = true) : startsWith a c = true :=
  startsWith_iff.2 ((startsWith_iff.1 hab).trans (startsWith_iff.1 hbc))

variable {key : String}

theorem ne_blobKey_of_staging (hstaging : startsWith "uploads/" key = true) (sha256 : String) :
    Storage.blobKey sha256 ≠ key := by
  rintro rfl
  obtain ⟨rest, hrest⟩ := startsWith_iff.1 hstaging
  rw [Storage.blobKey, String.toList_append] at hrest
  exact absurd (congrArg List.head? hrest) (by simp)

variable {content : Bytes} {opts : Storage.PutOpts} {sha256 : String}

theorem AskFine.hash_eq (fine : AskFine r (.put key content opts))
    (hverify : Storage.verify r.hash opts content = none) (hkey : Storage.blobKey sha256 = key) :
    r.hash content = sha256 := by
  rcases fine with hstaging | ⟨named, heq, hnamed⟩
  · exact absurd hkey (ne_blobKey_of_staging hstaging sha256)
  · rw [hnamed hverify]
    have hlists := congrArg String.toList (heq.symm.trans hkey.symm)
    rw [Storage.blobKey, Storage.blobKey, String.toList_append, String.toList_append] at hlists
    exact String.toList_injective (List.append_cancel_left hlists)

theorem putObject_grows (digests : Digests r.hash) (fine : AskFine r (.put key content opts))
    (hverify : Storage.verify r.hash opts content = none) (hsite : later.site = h.site)
    (hobjects : later.objects = h.objects.put key content) : Grows r feed h later := by
  refine ⟨fun path hrow => by rwa [rowAt, hsite], fun body hbody => ?_, fun sha256 hstored => ?_⟩
  · rw [hobjects, Table.find_put]
    split
    · next hsame => rw [digests.injective (fine.hash_eq hverify hsame)]
    · exact hbody
  · rw [stored, hobjects, Table.find_put]
    split
    · rfl
    · exact hstored

theorem verify_of_putFailure {core : Core} (hput : putFailure core key content opts = none) :
    Storage.verify core.hash opts content = none := by
  rw [putFailure] at hput
  split at hput
  · cases hput
  · cases hverify : Storage.verify core.hash opts content with
    | none => rfl
    | some error => rw [hverify] at hput; cases error <;> cases hput

theorem answer_grows (digests : Digests r.hash) (hnamed : own ≠ "") {what : Ask}
    (fine : AskFine r what) (h : Home) :
    (what.answer r.core own h).1.site = h.site ∧
      Grows r feed h (what.answer r.core own h).1 ∧
      Answered feed own what (what.answer r.core own h).2
        (what.answer r.core own h).1 := by
  cases what with
  | stat key | get key | draw => exact ⟨rfl, .refl h, trivial⟩
  | put key content opts =>
    simp only [Ask.answer]
    cases hput : putFailure r.core key content opts with
    | some error => exact ⟨rfl, .refl h, nofun⟩
    | none =>
      refine ⟨rfl, putObject_grows digests fine (verify_of_putFailure hput) rfl rfl, ?_⟩
      rintro - sha256 rfl
      exact Table.find_put_self ..
  | delete key =>
    have hkeep : ∀ sha256, (h.objects.keep fun k _ => k ≠ key).find (Storage.blobKey sha256) =
        h.objects.find (Storage.blobKey sha256) := by
      intro sha256
      exact Table.find_keep_of_ne h.objects (ne_blobKey_of_staging fine sha256)
    refine ⟨rfl, ⟨fun path => id, fun body hbody => ?_, fun sha256 hstored => ?_⟩, trivial⟩
    · exact (hkeep _).trans hbody
    · exact (congrArg Option.isSome (hkeep sha256)).trans hstored
  | list start =>
    refine ⟨rfl, .refl h, ?_⟩
    rintro parts hparts part hmem
    cases hparts
    rw [List.mem_insertionSort] at hmem
    obtain ⟨row, hrow, rfl⟩ := List.mem_map.1 hmem
    exact (List.mem_filter.1 hrow).2
  | manifests start =>
    refine ⟨rfl, .refl h, ?_⟩
    rintro rfl rows hrows ⟨key, row⟩ hmem
    cases hrows
    obtain ⟨hrow, hfeed, -⟩ := mem_listHosted.1 hmem
    rw [rowAt, ← hfeed.resolve_left hnamed]
    exact Option.isSome_iff_exists.2 ⟨row, hrow⟩

theorem run_grows (digests : Digests r.hash) (hnamed : own ≠ "") {what : Ask}
    (fine : AskFine r what) (h : Home) :
    (what.run r.core own h).1.site = h.site ∧
      Grows r feed h (what.run r.core own h).1 ∧
      Answered feed own what (what.run r.core own h).2 (what.run r.core own h).1 := by
  have htick : Grows r feed h { h with ticks := h.ticks + 1 } :=
    grows_of_same (fun _ => rfl) rfl
  simp only [Ask.run]
  cases r.core.fault h.ticks with
  | some error => exact ⟨rfl, htick, by cases what <;> first | trivial | exact nofun⟩
  | none =>
    obtain ⟨hsite, grows, hanswer⟩ :=
      answer_grows digests hnamed fine { h with ticks := h.ticks + 1 }
    exact ⟨hsite, htick.trans grows, hanswer⟩

/-! ## What the requests rest on -/

variable {repo : String} {next : Handling}

theorem staging_uploadKeyStart (feed repo uploadID : String) :
    startsWith "uploads/" (uploadKeyStart feed repo uploadID) = true := by
  rw [startsWith_iff, uploadKeyStart]
  simp only [String.toList_append, List.append_assoc]
  exact List.prefix_append _ _

theorem staging_partKey (feed repo uploadID : String) (offset : Nat) :
    startsWith "uploads/" (partKey feed repo uploadID offset) = true := by
  refine startsWith_trans (staging_uploadKeyStart feed repo uploadID) ?_
  rw [startsWith_iff, partKey, String.toList_append]
  exact List.prefix_append _ _

theorem hash_of_verify {size : Int} {contentType : String}
    (hhash : hexDigits (r.hash content) = true) (hdigits : hexDigits sha256 = true)
    (hsome : sha256 ≠ "")
    (hverify : Storage.verify r.hash ⟨sha256, size, contentType⟩ content = none) :
    r.hash content = sha256 := by
  rw [Storage.verify] at hverify
  split at hverify
  · cases hverify
  · split at hverify
    · cases hverify
    · next hfold =>
        have hequal : Storage.equalFold sha256 (r.hash content) = true := by
          simpa [hsome] using hfold
        exact (equalFold_hexDigits hdigits hhash hequal).symm

/-- What an upload to the feed `own` may do. -/
def uploading (r : Registry) (feed own : String) : Conduct where
  asks := AskFine r
  hears what answer := ∃ h, Answered feed own what answer h
  publishes req := req.feed = own ∧
    ∀ h, own = feed → Placed r feed h req.path req.coord req.sha256

theorem assured_of_keeps (keeps : (uploading r feed own).Keeps handling) (h : Home) :
    Assured r feed own handling h := by
  induction keeps generalizing h with
  | respond | fail => trivial
  | ask hfine _ ih => exact ⟨hfine, fun answer later _ heard => ih answer ⟨later, heard⟩ later⟩
  | publish hplaced _ ih => exact ⟨hplaced.1, hplaced.2 h, fun result later _ _ => ih result later⟩

theorem uploading_publishes {digest algo : String}
    (hparse : parseDigest digest = some (algo, sha256))
    (req : PublishRequest) (blob : BlobRequest own repo sha256 req) :
    (uploading r feed own).publishes req := by
  obtain ⟨-, ⟨hdigits, -⟩, -⟩ := parseDigest_eq_some hparse
  refine ⟨blob.feed, fun h _ => ?_⟩
  rw [blob.path, blob.coord, blob.sha256]
  exact .blob repo sha256 hdigits

theorem requirePublished_assured {paths : List String} (hnext : ∀ later, Grows r feed h later →
      (own = feed → ∀ path ∈ paths, (rowAt feed path later).isSome = true) →
      Assured r feed own next later) : Assured r feed own (requirePublished next paths) h := by
  induction paths generalizing h with
  | nil => exact hnext h (.refl h) fun _ => nofun
  | cons path rest ih =>
    refine ⟨trivial, ?_⟩
    rintro (error | rows) later hlater hanswer
    · trivial
    · dsimp only
      split
      · next hany =>
          obtain ⟨row, hmem, hpath⟩ := List.any_eq_true.1 hany
          have hfound : own = feed → (rowAt feed path later).isSome = true := by
            intro hown
            rw [← of_decide_eq_true hpath]
            exact hanswer hown rows rfl row hmem
          refine ih fun last hlast hrest => hnext last (hlater.trans hlast) ?_
          intro hown other hother
          rcases List.mem_cons.1 hother with rfl | hlater'
          · exact hlast.rows _ (hfound hown)
          · exact hrest hown other hlater'
      · trivial

theorem validTag_of_referenceFailure {digest reference : String}
    (hreference : referenceFailure digest reference = none)
    (hparse : ¬ (parseDigest reference).isSome = true) : validTag reference = true := by
  rw [referenceFailure] at hreference
  split at hreference
  · next heq => exact absurd (by rw [heq]; rfl) hparse
  · split at hreference
    · cases hreference
    · next hvalid => simpa using hvalid

variable (digests : Digests r.hash)

include digests

theorem uploading_completes (repo uploadID : String) :
    Completes (uploading r feed own) (fun _ => True) own repo uploadID where
  lists := trivial
  parts := by
    rintro parts ⟨h, heard⟩ part hmem
    have hstaging := startsWith_trans (staging_uploadKeyStart own repo uploadID)
      (heard parts rfl part hmem)
    exact ⟨hstaging, trivial, fun _ _ _ _ => trivial⟩
  empty := trivial
  commits := by
    intro digest algo hex hparse content _ size contentType
    obtain ⟨-, ⟨hdigits, hsome⟩, -⟩ := parseDigest_eq_some hparse
    refine ⟨.inr ⟨hex, rfl, hash_of_verify (digests.hexDigits content) hdigits hsome⟩, ?_⟩
    exact fun _ => uploading_publishes hparse

theorem storeManifest_assured {reference mediaType : String} (hdoc : r.unmarshal body = .ok doc)
    (names : NamesDigests doc) (hreference : referenceFailure (r.hash body) reference = none)
    (hosted : own = feed → ∀ path ∈ references repo doc, (rowAt feed path h).isSome = true) :
    Assured r feed own (storeManifest own repo reference mediaType (r.hash body) body) h := by
  refine ⟨.inr ⟨r.hash body, rfl, fun _ => rfl⟩, ?_⟩
  rintro (error | done) later hlater hanswer
  · trivial
  · have hcontent := hanswer rfl (r.hash body) rfl
    refine ⟨rfl, fun hown => .manifest repo body doc hcontent hdoc names fun path hmem =>
      hlater.rows path (hosted hown path hmem), ?_⟩
    rintro (error | done) last - hrow
    · trivial
    · split
      · trivial
      · next hparse =>
          refine ⟨rfl, fun hown => .tag repo reference (r.hash body)
            (validTag_of_referenceFailure hreference hparse) (digests.hexDigits body)
            (hrow hown done rfl), ?_⟩
          rintro (error | done) final - -
          · trivial
          · trivial

theorem putManifest_assured (repo reference : String) (req : Request)
    (names : ∀ doc, r.unmarshal req.body = .ok doc → NamesDigests doc) :
    Assured r feed own (putManifest r.hash r.unmarshal own repo reference req) h := by
  rw [putManifest]
  split
  · trivial
  · cases hdoc : r.unmarshal req.body with
    | error cause => trivial
    | ok doc =>
      dsimp only
      generalize (if req.headers.contentType.val = "" then _ else _) = mediaType
      split
      · trivial
      · cases hreference : referenceFailure (r.hash req.body) reference with
        | some error => trivial
        | none =>
          exact requirePublished_assured fun later _ hosted =>
            storeManifest_assured digests hdoc (names doc hdoc) hreference hosted

/-- Every request, unless it puts a manifest that names something else than digests. -/
theorem handlePublishHTTP_assured {req : Request}
    (names : manifestPut req = true → ∀ doc, r.unmarshal req.body = .ok doc → NamesDigests doc) :
    Assured r feed own (handlePublishHTTP r.hash r.unmarshal own req) h := by
  rw [handlePublishHTTP]
  split
  · trivial
  · split
    · trivial
    · rw [manifestPut] at names
      cases href : parseRef ((textOf (trimSlash req.path)).toList.drop 3) with
      | error error => trivial
      | ok ref =>
        rw [href] at names
        have completes : ∀ uploadID, Completes (uploading r feed own) (fun _ => True) own ref.repo
            uploadID := uploading_completes digests ref.repo
        dsimp only
        rw [dispatch]
        split
        · exact assured_of_keeps (startUpload_keeps trivial
            (fun uploadID => ⟨completes uploadID, .inl (staging_partKey ..)⟩)
            fun digest algo hex hparse => ⟨trivial, fun _ _ => uploading_publishes hparse⟩) h
        · trivial
        · split
          · trivial
          · exact assured_of_keeps (appendChunk_keeps trivial fun _ => .inl (staging_partKey ..)) h
        · split
          · trivial
          · exact assured_of_keeps (finishUpload_keeps (completes ref.reference) fun _ =>
              .inl (staging_partKey ..)) h
        · next hmethod hkind =>
            exact putManifest_assured digests ref.repo ref.reference req
              (names (by simp [hmethod, hkind]))
        · trivial
        · split
          · refine assured_of_keeps (deleteParts_keeps trivial (.respond _) ?_) h
            exact fun parts heard part hmem => ((completes _).parts parts heard part hmem).1
          · trivial
        · trivial

end

/-! ## One step -/

structure PushCall.Fine (r : Registry) (feed : String) (h : Home) (call : PushCall) : Prop where
  assured : Assured r feed call.feed.name call.handling h
  /-- The object of an S3 `Put` stays until it is checked. -/
  uploaded : call.uploaded = true → ∀ key content opts next,
    call.handling = .ask (.put key content opts) next → ∀ sha256, key = Storage.blobKey sha256 →
      r.hash content = sha256 ∧ h.objects.find (Storage.blobKey sha256) = some content

structure Orderly (r : Registry) (feed : String) (w : Pushing) : Prop where
  tidy : Tidy r feed w.home
  calls : ∀ i call, w.calls i = some call → call.Fine r feed w.home

variable {next : Except Failure Unit → Handling} {opts : Storage.PutOpts} {content : Bytes}

section

variable {r : Registry} {feed : String} {w : Pushing}

variable {call : PushCall}

theorem PushCall.Fine.mono {h later : Home} (fine : call.Fine r feed h)
    (grows : Grows r feed h later) : call.Fine r feed later where
  assured := fine.assured.mono grows
  uploaded := fun huploaded key content opts next hask sha256 hkey => by
    obtain ⟨hhash, hfind⟩ := fine.uploaded huploaded key content opts next hask sha256 hkey
    rw [← hhash] at hfind ⊢
    exact ⟨rfl, grows.contents content hfind⟩

variable {i : Nat} {home : Home}

section

variable (orderly : Orderly r feed w)

include orderly

theorem Orderly.moves {call : Option PushCall} (tidy : Tidy r feed home)
    (grows : Grows r feed w.home home) (hcall : ∀ c, call = some c → c.Fine r feed home) :
    Orderly r feed { home := home, calls := Function.update w.calls i call } :=
  ⟨tidy, forall_calls_update (fun j c hj => (orderly.calls j c hj).mono grows) hcall⟩

theorem Orderly.requests (i : Nat) {call : Option PushCall}
    (hcall : ∀ c, call = some c → c.Fine r feed w.home) :
    Orderly r feed { w with calls := Function.update w.calls i call } := by
  apply orderly.moves
  · exact orderly.tidy
  · exact .refl w.home
  · exact hcall

theorem Orderly.goesOn (i : Nat) (call : PushCall) (tidy : Tidy r feed home)
    (grows : Grows r feed w.home home) (assured : Assured r feed call.feed.name handling home) :
    Orderly r feed (w.goesOn i call home handling) :=
  orderly.moves tidy grows fun c hc => by
    cases hc
    exact ⟨assured, fun huploaded => by cases huploaded⟩

end

section

variable {key : String} (orderly : Orderly r feed w) (fine : call.Fine r feed w.home)
  (hask : call.handling = .ask (.put key content opts) next)
  (hverify : Storage.verify r.hash opts content = none)

include orderly fine hask hverify

theorem upload_orderly (digests : Digests r.hash) :
    Orderly r feed (upload r.core w i call key content next) := by
  have assured := fine.assured
  rw [hask] at assured
  rw [upload]
  split
  · have grows : Grows r feed w.home { w.home with ticks := w.home.ticks + 1 } :=
      grows_of_same (fun _ => rfl) rfl
    exact orderly.goesOn i call (orderly.tidy.of_grows (fun _ => rfl) grows) grows
      (assured.2 _ _ grows nofun)
  · have grows : Grows r feed w.home { w.home with
        ticks := w.home.ticks + 1, objects := w.home.objects.put key content } :=
      putObject_grows digests assured.1 hverify rfl rfl
    have tidy : Tidy r feed { w.home with
        ticks := w.home.ticks + 1, objects := w.home.objects.put key content } :=
      orderly.tidy.of_grows (fun _ => rfl) grows
    refine orderly.moves tidy grows fun c hc => ?_
    cases hc
    refine ⟨fine.assured.mono grows, ?_⟩
    rintro - key' content' opts' next' hput sha256 rfl
    cases hask.symm.trans hput
    exact ⟨AskFine.hash_eq assured.1 hverify rfl, Table.find_put_self ..⟩

theorem settle_orderly (huploaded : call.uploaded = true) :
    Orderly r feed (settle r.core w i call key content opts next) := by
  have assured := fine.assured
  rw [hask] at assured
  have grows : Grows r feed w.home { w.home with ticks := w.home.ticks + 1 } :=
    grows_of_same (fun _ => rfl) rfl
  have hgoes : ∀ answer, Answered feed call.feed.name (.put key content opts) answer
      { w.home with ticks := w.home.ticks + 1 } →
      Orderly r feed (w.goesOn i call { w.home with ticks := w.home.ticks + 1 } (next answer)) :=
    fun answer hanswer => orderly.goesOn i call (orderly.tidy.of_grows (fun _ => rfl) grows) grows
      (assured.2 answer _ grows hanswer)
  rw [settle]
  rw [show Storage.verify r.core.hash opts content = none from hverify]
  split
  · next hsome => cases hsome
  · exact hgoes _ nofun
  · split
    · exact hgoes _ nofun
    · refine hgoes (.ok ()) ?_
      rintro - sha256 hkey
      exact (fine.uploaded huploaded key content opts next hask sha256 hkey).2

end

theorem advance_orderly (digests : Digests r.hash) (orderly : Orderly r feed w)
    (hcall : w.calls i = some call) (hmatches : r.backend = .s3 → Matches r call.handling) :
    Orderly r feed (advance r w i call) := by
  have fine := orderly.calls i call hcall
  have assured := fine.assured
  have hends : Orderly r feed (w.ends i) := orderly.requests i fun c hc => by cases hc
  rw [advance]
  split
  · exact hends
  · exact hends
  · next req next hpublish =>
      rw [hpublish] at assured
      obtain ⟨hfeed, placed, hnext⟩ := assured
      have hplaced : req.feed = feed → Placed r feed w.home req.path req.coord req.sha256 :=
        fun hreq => placed (hfeed.symm.trans hreq)
      obtain ⟨tidy, grows, hrow⟩ :=
        depsPublish_tidy digests orderly.tidy call.feed call.identity hplaced
      exact orderly.goesOn i call tidy grows
        (hnext _ _ grows fun hown => hrow (hfeed.trans hown))
  · next what next hask =>
      rw [hask] at assured
      split
      · next key content opts next hbackend =>
          have hverify := hmatches hbackend
          rw [hask] at hverify
          split
          · next huploaded => exact settle_orderly orderly fine hask hverify huploaded
          · exact upload_orderly orderly fine hask hverify digests
      · obtain ⟨hsite, grows, hanswer⟩ := run_grows digests call.feed.named assured.1 w.home
        have tidy := orderly.tidy.of_grows (fun path => by rw [rowAt, hsite]; rfl) grows
        exact orderly.goesOn i call tidy grows (assured.2 _ _ grows hanswer)

theorem run_orderly (digests : Digests r.hash) (orderly : Orderly r feed w) (step : PushStep)
    (careful : Careful r w step) : Orderly r feed (step.run r w) := by
  cases step with
  | receive i fr identity req =>
    rw [PushStep.run]
    split
    · exact orderly
    · refine orderly.requests i fun c hc => ?_
      cases hc
      exact ⟨handlePublishHTTP_assured digests careful, fun huploaded => by cases huploaded⟩
  | advance i =>
    rw [PushStep.run]
    split
    · exact orderly
    · next call hcall =>
        exact advance_orderly digests orderly hcall fun hbackend => careful hbackend call hcall

/-! ## Whole runs -/

/-- In every run whose manifests name digests, and in which what is put into an S3 store matches
its digest, the feed is closed in every state. -/
theorem pushes_closed (digests : Digests r.hash) (feed : String) (start : Home)
    (hempty : ∀ path, rowAt feed path start = none) (steps : List PushStep)
    (careful : Meets (PushStep.run r) (Careful r) steps { home := start }) :
    Closed r feed (runAll (PushStep.run r) steps { home := start }).home := by
  have hstart : Orderly r feed { home := start } := by
    refine ⟨fun path row hfind => ?_, fun i call hcall => by cases hcall⟩
    rw [hempty path] at hfind
    cases hfind
  have orderly := invariant_runAll (P := Orderly r feed)
    (fun w step orderly careful => run_orderly digests orderly step careful) hstart careful
  exact orderly.tidy.closed digests

end

/-! ## Two incomplete images -/

def hexDigit (n : Nat) : Char :=
  if n < 10 then Char.ofNat (48 + n) else Char.ofNat (87 + n)

def hexOf (content : Bytes) : String :=
  String.ofList (content.flatMap fun b => [hexDigit (b.toNat / 16), hexDigit (b.toNat % 16)])

theorem hexDigit_injective {m n : Nat} (hm : m < 16) (hn : n < 16)
    (heq : hexDigit m = hexDigit n) : m = n := by
  have hall : ∀ a : Fin 16, ∀ b : Fin 16, hexDigit a = hexDigit b → a = b := by decide
  exact congrArg Fin.val (hall ⟨m, hm⟩ ⟨n, hn⟩ heq)

theorem hexOf_digests : Digests hexOf where
  hexDigits := by
    intro content
    rw [hexDigits, hexOf, String.toList_ofList, List.all_eq_true]
    intro c hmem
    obtain ⟨b, -, hb⟩ := List.mem_flatMap.1 hmem
    have hall : ∀ a : Fin 16, (hexDigit a).isDigit || ('a' ≤ hexDigit a && hexDigit a ≤ 'f') := by
      decide
    have hbyte := b.toNat_lt
    rcases List.mem_pair.1 hb with rfl | rfl
    · exact hall ⟨b.toNat / 16, by omega⟩
    · exact hall ⟨b.toNat % 16, by omega⟩
  injective := by
    intro a b heq
    have hlists := String.ofList_injective heq
    clear heq
    induction a generalizing b with
    | nil =>
      cases b with
      | nil => rfl
      | cons y rest => cases hlists
    | cons x rest ih =>
      cases b with
      | nil => cases hlists
      | cons y rest' =>
        simp only [List.flatMap_cons, List.cons_append, List.nil_append, List.cons.injEq]
          at hlists
        obtain ⟨hhigh, hlow, hrest⟩ := hlists
        have hx := x.toNat_lt
        have hy := y.toNat_lt
        have hhigh' := hexDigit_injective (by omega) (by omega) hhigh
        have hlow' := hexDigit_injective (by omega) (by omega) hlow
        have hxy : x = y := UInt8.toNat_inj.1 (by omega)
        rw [hxy, ih hrest]

def imageServer : ServerRuntime where
  site := "here"
  engine := ⟨[⟨"all", [⟨"feed/hub/*", [.publish], "all"⟩]⟩], [⟨"", ["all"], {}⟩]⟩
  core :=
    { publisher := ⟨"here", .plain, false⟩
      enabled := true
      hash := hexOf
      clock := fun _ => ⟨0, 0, 0, 0⟩
      now := fun _ => 0
      draw := fun n => .ok ("session-" ++ toString n)
      fault := fun _ => none }
  feeds := []

def imageFeed : FeedRuntime where
  name := "hub"
  named := hub_named
  isLocal := true
  homeSite := "here"
  hosted := true
  module := none
  onPublish _ := ⟨true, ""⟩

def zerosDigest : String :=
  "0000000000000000000000000000000000000000000000000000000000000000"

def imageDoc (config : String) : ManifestDoc :=
  ⟨"application/vnd.oci.image.manifest.v1+json", config, [], []⟩

def indexDoc (child : String) : ManifestDoc :=
  ⟨"application/vnd.oci.image.index.v1+json", "", [], [child]⟩

/-- A registry in which `[1]` and `[2]` are manifests. -/
def imageRegistry (backend : Storage.Backend) (first second : ManifestDoc) : Registry where
  server := imageServer
  backend := backend
  unmarshal body :=
    if body = [1] then .ok first else if body = [2] then .ok second
    else .error "unexpected end of JSON input"

/-- `POST /v2/<repo>/blobs/uploads/?digest=sha256:<hex>` with the blob. -/
def pushBlob (repo sha256 : String) (body : Bytes) : Request :=
  ⟨"POST", by decide, bytesOf ("/v2/" ++ repo ++ "/blobs/uploads/"),
    bytesOf ("digest=sha256:" ++ sha256), noHeaders, body⟩

/-- `PUT /v2/<repo>/manifests/latest`. -/
def pushManifest (repo : String) (body : Bytes) : Request :=
  ⟨"PUT", validMethod_put, bytesOf ("/v2/" ++ repo ++ "/manifests/latest"), [], noHeaders, body⟩

def pushSteps (i : Nat) (req : Request) : List PushStep :=
  .receive i imageFeed { kind := .token, subject := "t" } req :: List.replicate 12 (.advance i)

/-- `POST /v2/a/blobs/uploads/?mount=sha256:<hex>`. -/
def mountLayer : Request :=
  ⟨"POST", by decide, bytesOf "/v2/a/blobs/uploads/", bytesOf ("mount=sha256:" ++ zerosDigest),
    noHeaders, []⟩

def plainRegistry : Registry :=
  imageRegistry .fs (imageDoc ("sha256:" ++ zerosDigest)) (indexDoc "")

def withLayer : Home where
  objects := Table.put ∅ (Storage.blobKey zerosDigest) (List.replicate 32 0)

def imageSteps : List PushStep :=
  pushSteps 0 mountLayer ++ pushSteps 1 (pushManifest "a" [1])

theorem imageSteps_careful :
    Meets (PushStep.run plainRegistry) (Careful plainRegistry) imageSteps
      { home := withLayer } := by
  refine meets_of_forall (fun step hmem w => ?_) _
  cases step with
  | advance i => exact nofun
  | receive i fr identity req =>
    intro _ doc hdoc
    simp only [plainRegistry, imageRegistry] at hdoc
    rw [NamesDigests]
    split at hdoc
    · cases hdoc
      decide +kernel
    · split at hdoc
      · cases hdoc
        decide +kernel
      · cases hdoc

/-- An image that names its config by the digest. -/
theorem pushes_closed_image :
    Meets (PushStep.run plainRegistry) (Careful plainRegistry) imageSteps { home := withLayer } ∧
      Closed plainRegistry "hub"
        (runAll (PushStep.run plainRegistry) imageSteps { home := withLayer }).home :=
  ⟨imageSteps_careful,
    pushes_closed (r := plainRegistry) hexOf_digests "hub" withLayer (fun _ => rfl) _
      imageSteps_careful⟩

/-- The row of a manifest with the body `[n]` in repository `a`, its body, and whether the layer is
there. -/
def imageSummary (sha256 : String) (h : Home) : Option (String × String) × Option Bytes × Bool :=
  ((rowAt "hub" (manifestPath "a" ("sha256:" ++ sha256)) h).map
      fun row => (row.coordinate, row.sha256),
    h.objects.find (Storage.blobKey sha256), (h.objects.find (Storage.blobKey zerosDigest)).isSome)

variable {sha256 : String}

theorem complete_of_summary {r : Registry} {h : Home} {there : Bool} (closed : Closed r "hub" h)
    (hdoc : r.unmarshal body = .ok doc) (hsummary : imageSummary sha256 h =
      (some ("oci:a@" ++ ("sha256:" ++ sha256), sha256), some body, there)) :
    Complete "hub" "a" doc h := by
  obtain ⟨hrow, hrest⟩ := Prod.ext_iff.1 hsummary
  have hbody : h.objects.find (Storage.blobKey sha256) = some body := (Prod.ext_iff.1 hrest).1
  obtain ⟨row, hfind, hpair⟩ := Option.map_eq_some_iff.1 hrow
  obtain ⟨hcoord, hsha⟩ := Prod.ext_iff.1 hpair
  obtain ⟨content, named, hcontent, hnamed, complete⟩ := closed.manifests "a" sha256
    ⟨⟨row, hfind, hcoord, hsha⟩, by rw [stored, hbody]; rfl⟩
  rw [hbody] at hcontent
  cases hcontent
  rw [hdoc] at hnamed
  cases hnamed
  exact complete

theorem not_stored_of_summary {h : Home} {row : Option (String × String)} {body : Option Bytes}
    (hsummary : imageSummary sha256 h = (row, body, false)) : ¬ stored zerosDigest h := by
  have hgone : (h.objects.find (Storage.blobKey zerosDigest)).isSome = false :=
    congrArg (fun summary => summary.2.2) hsummary
  rw [stored, hgone]
  exact Bool.false_ne_true

/-- An index of repository `a` names an image of repository `a/manifests/x` by the rest of its
path. -/
def misnaming : Registry :=
  imageRegistry .fs (imageDoc "") (indexDoc "x/manifests/sha256:01")

def misnamed : Home :=
  (runAll (PushStep.run misnaming)
    (pushSteps 0 (pushManifest "a/manifests/x" [1]) ++ pushSteps 1 (pushManifest "a" [2]))
    { home := {} }).home

def spoiling : Registry :=
  imageRegistry .s3 (imageDoc ("sha256:" ++ zerosDigest)) (indexDoc "")

def spoiled : Home :=
  (runAll (PushStep.run spoiling) (imageSteps ++ pushSteps 2 (pushBlob "b" zerosDigest [7]))
    { home := withLayer }).home

theorem incomplete_summaries :
    imageSummary "02" misnamed =
        (some ("oci:a@" ++ ("sha256:" ++ "02"), "02"), some [2], false) ∧
      imageSummary "01" spoiled =
        (some ("oci:a@" ++ ("sha256:" ++ "01"), "01"), some [1], false) := by
  decide +kernel

/-- Neither image is complete: the child of the first is in another repository, the config of the
second is gone. -/
theorem incomplete_images :
    ¬ Closed misnaming "hub" misnamed ∧ ¬ Closed spoiling "hub" spoiled := by
  constructor
  · intro closed
    have complete := complete_of_summary closed rfl incomplete_summaries.1
    obtain ⟨sha256, hchild, -⟩ :=
      complete.children _ (List.mem_singleton_self _) (by decide +kernel)
    have hhead := congrArg (fun s : String => s.toList.head?) hchild
    simp [String.toList_append] at hhead
  · intro closed
    have complete := complete_of_summary closed rfl incomplete_summaries.2
    obtain ⟨sha256, hconfig, hosted⟩ := complete.config (by decide +kernel)
    have hlists := congrArg String.toList hconfig
    rw [imageDoc, String.toList_append, String.toList_append] at hlists
    have hstored := hosted.stored
    rw [← String.toList_injective (List.append_cancel_left hlists)] at hstored
    exact not_stored_of_summary incomplete_summaries.2 hstored

end FondacoFormal.Formats.Oci
