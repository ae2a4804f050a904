import FondacoFormal.Pipeline.Serve

/-!
# Two runs of the read pipeline

Some feeds are hidden, and with them the digests that only they name.  Two stores
that agree on the rest serve every other feed alike, and agree on the rest
afterwards.
-/

namespace FondacoFormal.Pipeline

open Library Library.Program State Server Api

/-! ## What is hidden -/

structure Hidden where
  feeds : String → Prop
  digests : String → Prop

def SameCache {ν : Type} (h : Hidden) (a b : Table PathKey ν) : Prop :=
  a.rows.length = b.rows.length ∧
    ∀ feed key, ¬ h.feeds feed → a.find (feed, key) = b.find (feed, key)

/-- The stores agree on all but what is hidden, and nothing else names a hidden digest. -/
structure SameView (h : Hidden) (s t : ReadStore) : Prop where
  manifests : ∀ feed path, ¬ h.feeds feed →
    s.manifests.find (feed, path) = t.manifests.find (feed, path)
  named : ∀ feed path m, ¬ h.feeds feed →
    s.manifests.find (feed, path) = some (.ok m) → ¬ h.digests m.sha256
  documents : ∀ feed key, ¬ h.feeds feed →
    s.documents.find (feed, key) = t.documents.find (feed, key)
  blobs : ∀ sha, ¬ h.digests sha → s.blobs.find sha = t.blobs.find sha
  missing : SameCache h s.missing t.missing
  entries : SameCache h s.entries t.entries
  hosted : ∀ feed, ¬ h.feeds feed → hostedOf s.tables feed = hostedOf t.tables feed
  hostedNamed : ∀ feed row, ¬ h.feeds feed → row ∈ hostedOf s.tables feed → ¬ h.digests row.2.sha256
  quarantine : ∀ feed, ¬ h.feeds feed → quarantineOf s.tables feed = quarantineOf t.tables feed
  ticks : s.ticks = t.ticks

def Upstream.Plain (h : Hidden) (env : ReadEnv) (up : Upstream) : Prop :=
  ∀ target n response content, up.fetch target n = .ok response → response.body = .ok content →
    ¬ h.digests (env.digest "sha256" content)

structure ServeRequest.Plain (h : Hidden) (env : ReadEnv) (req : ServeRequest) : Prop where
  feed : ¬ h.feeds req.feed.name
  upstream : ∀ up, req.upstream = some up → up.Plain h env

def PlainPeers (h : Hidden) (env : ReadEnv) : Prop :=
  ∀ clients, env.peers = some clients → ∀ client ∈ clients, ∀ feed path n found,
    ¬ h.feeds feed → client.manifest feed path n = .ok found → ¬ h.digests found.1

abbrev Any {α : Type} : α → Prop := fun _ => True

/-- A computation that cannot tell what is hidden. -/
abbrev Steady (h : Hidden) {α : Type} (P : α → Prop) (x : Reading α) : Prop :=
  Alike (SameView h) P x x

variable {h : Hidden} {env : ReadEnv}

/-! ## Operations -/

variable {s t : ReadStore}

theorem SameView.ticked (view : SameView h s t) (n : Nat) :
    SameView h { s with ticks := n } { t with ticks := n } :=
  { view with ticks := rfl }

theorem tick_alike : Steady h Any tick := by
  intro s t view
  unfold tick
  rw [view.ticks]
  exact ⟨view.ticked _, rfl, fun _ _ => trivial⟩

theorem operation_alike : Steady h Any (operation env) := by
  apply Alike.bind tick_alike
  intro n _
  split
  · exact .fail _
  · exact .pure trivial

theorem inContext_alike {α : Type} {P : α → Prop} {x y : Reading α} (context : String)
    (hx : Alike (SameView h) P x y) :
    Alike (SameView h) P (inContext context x) (inContext context y) := by
  apply Alike.caught hx
  · exact fun a ha => .pure ha
  · exact fun _ => .fail _

variable {feed : String}

theorem loadManifest_alike (hfeed : ¬ h.feeds feed) (path : String) :
    Steady h (fun m => ¬ h.digests m.sha256) (loadManifest env feed path) := by
  apply Alike.bind operation_alike
  intro _ _
  apply Alike.bind (P := fun found => ∀ m, found = some (.ok m) → ¬ h.digests m.sha256)
  · apply Alike.reads
    intro s t view
    exact ⟨view.manifests feed path hfeed, fun m => view.named feed path m hfeed⟩
  · intro found hfound
    cases found with
    | none => exact .fail _
    | some loaded =>
      apply Alike.lift
      intro m hm
      exact hfound m (congrArg some hm)

variable {sha : String}

theorem getBlob_alike (hsha : ¬ h.digests sha) : Steady h Any (getBlob env sha) := by
  apply Alike.bind operation_alike
  intro _ _
  apply Alike.bind (P := Any)
  · apply Alike.reads
    intro s t view
    exact ⟨view.blobs sha hsha, trivial⟩
  · intro found _
    cases found with
    | none => exact .fail _
    | some content => exact .pure trivial

theorem SameView.putBlob (view : SameView h s t) (sha : String) (content : Bytes) :
    SameView h { s with blobs := s.blobs.put sha content }
      { t with blobs := t.blobs.put sha content } :=
  { view with
    blobs := by
      intro other hother
      rw [Table.find_put, Table.find_put, view.blobs other hother] }

theorem putBlob_alike (sha : String) (content : Bytes) :
    Steady h Any (putBlob env sha content) := by
  apply Alike.bind operation_alike
  intro _ _
  exact .update fun s t view => view.putBlob sha content

variable {key : PathKey}

theorem getDocument_alike (hfeed : ¬ h.feeds key.1) : Steady h Any (getDocument env key) := by
  apply Alike.bind operation_alike
  intro _ _
  apply Alike.bind (P := Any)
  · apply Alike.reads
    intro s t view
    exact ⟨view.documents key.1 key.2 hfeed, trivial⟩
  · intro found _
    cases found with
    | none => exact .fail _
    | some document => exact .pure trivial

/-! ## Results -/

section

variable {m : Manifest} (hm : ¬ h.digests m.sha256)

include hm

theorem openBlob_alike (source : Source) :
    Steady h Any (openBlob env m source) := by
  apply Alike.bind (inContext_alike _ (getBlob_alike hm))
  intro content _
  exact .pure trivial

theorem manifestDigest_alike (algo : String) : Steady h Any (manifestDigest env m algo) := by
  unfold manifestDigest
  split
  · exact .pure trivial
  · split
    · exact .pure trivial
    · split
      · exact .fail _
      · apply Alike.bind (inContext_alike _ (getBlob_alike hm))
        intro content _
        exact .pure trivial

theorem artifactResult_alike (intent : Intent) (source : Source) :
    Steady h Any (artifactResult env intent m source) := by
  unfold artifactResult
  split
  · exact openBlob_alike hm source
  · apply Alike.bind (manifestDigest_alike hm _)
    intro digest _
    exact .pure trivial

end

theorem openMeta_alike (hfeed : ¬ h.feeds key.1) (source : Source) :
    Steady h Any (openMeta env key source) := by
  apply Alike.bind (getDocument_alike hfeed)
  intro document _
  exact .pure trivial

/-! ## Peers -/

theorem fetchBlob_alike (client : PeerClient) (sha : String) (size : Int) :
    Steady h Any (fetchBlob env client sha size) := by
  apply Alike.bind tick_alike
  intro n _
  dsimp only
  split
  · exact .fail _
  · exact inContext_alike _ (putBlob_alike sha _)

theorem fetchFromAny_alike (sha : String) (size : Int) (clients : List PeerClient)
    (last : Failure) :
    Steady h Any (fetchFromAny env sha size clients last) := by
  induction clients generalizing last with
  | nil => exact .fail _
  | cons client rest ih =>
    apply Alike.caught (fetchBlob_alike client sha size)
    · exact fun _ _ => .pure trivial
    · exact ih

theorem ensureBlob_alike (clients : List PeerClient) (hsha : ¬ h.digests sha) (size : Int) :
    Steady h Any (ensureBlob env clients sha size) := by
  apply Alike.caught (getBlob_alike hsha)
  · exact fun _ _ => .pure trivial
  · exact fun _ => fetchFromAny_alike sha size clients _

theorem clientManifest_alike {client : PeerClient} (path : String)
    (hclient : ∀ n found, client.manifest feed path n = .ok found → ¬ h.digests found.1) :
    Steady h (fun found => ¬ h.digests found.1) (clientManifest client feed path) := by
  apply Alike.bind tick_alike
  intro n _
  apply Alike.bind (P := fun found => ¬ h.digests found.1) (.lift fun found => hclient n found)
  intro found hfound
  split_ifs
  · exact .fail _
  · exact .pure hfound

variable {ν : Type} {a b : Table PathKey ν}

theorem SameCache.put (same : SameCache h a b) (hfeed : ¬ h.feeds key.1) (v : ν) :
    SameCache h (a.put key v) (b.put key v) := by
  constructor
  · rw [Table.length_rows_put, Table.length_rows_put, same.1, same.2 key.1 key.2 hfeed]
  · intro feed other hother
    rw [Table.find_put, Table.find_put, same.2 feed other hother]

theorem SameCache.erase (same : SameCache h a b) (hfeed : ¬ h.feeds key.1) :
    SameCache h (Table.erase a key) (Table.erase b key) := by
  constructor
  · rw [Table.length_rows_erase, Table.length_rows_erase, same.1, same.2 key.1 key.2 hfeed]
  · intro feed other hother
    rw [Table.find_erase, Table.find_erase, same.2 feed other hother]

theorem SameCache.empty : SameCache h (∅ : Table PathKey ν) ∅ :=
  ⟨rfl, fun _ _ _ => rfl⟩

theorem SameCache.keep (same : SameCache h a b) (full : Nat → Prop) [DecidablePred full]
    (hfeed : ¬ h.feeds key.1) (v : ν) :
    SameCache h ((if full a.rows.length then ∅ else a).put key v)
      ((if full b.rows.length then ∅ else b).put key v) := by
  rw [same.1]
  split_ifs
  · exact SameCache.empty.put hfeed v
  · exact same.put hfeed v

theorem noteMissing_alike (hfeed : ¬ h.feeds key.1) : Steady h Any (noteMissing env key) := by
  apply Alike.bind tick_alike
  intro n _
  apply Alike.update
  intro s t view
  exact { view with missing := view.missing.keep (fun n => 4096 < n) hfeed _ }

theorem recentlyMissing_alike (hfeed : ¬ h.feeds key.1) :
    Steady h Any (recentlyMissing env key) := by
  apply Alike.bind tick_alike
  intro n _
  apply Alike.bind (P := Any)
  · exact .reads fun s t view => ⟨view.missing.2 key.1 key.2 hfeed, trivial⟩
  · intro found _
    cases found with
    | none => exact .pure trivial
    | some expiry =>
      dsimp only
      split_ifs
      · apply Alike.bind (.update fun s t view => { view with missing := view.missing.erase hfeed })
        exact fun _ _ => .pure trivial
      · exact .pure trivial

section

variable {clients : List PeerClient} (hfeed : ¬ h.feeds feed) (path : String)
  (hclients : ∀ client ∈ clients, ∀ n found, client.manifest feed path n = .ok found →
    ¬ h.digests found.1)

include hfeed hclients

theorem manifestFromAny_alike (last : Failure) :
    Steady h (fun found => ¬ h.digests found.1) (manifestFromAny env feed path clients last) := by
  induction clients generalizing last with
  | nil =>
    apply Alike.bind (noteMissing_alike hfeed)
    intro _ _
    exact .fail _
  | cons client rest ih =>
    apply Alike.caught (clientManifest_alike path (hclients client List.mem_cons_self))
    · exact fun found hfound => .pure hfound
    · exact ih fun other hother => hclients other (.tail _ hother)

theorem fetchManifest_alike :
    Steady h (fun found => ¬ h.digests found.1) (fetchManifest env clients feed path) := by
  apply Alike.bind (recentlyMissing_alike hfeed)
  intro held _
  split_ifs
  · exact .fail _
  · exact manifestFromAny_alike hfeed path hclients _

end

variable {req : ServeRequest}

theorem fromPeer_alike (hpeers : PlainPeers h env) (hreq : req.Plain h env) :
    Steady h Any (fromPeer env req) := by
  unfold fromPeer
  split
  next clients _ hclients =>
    apply Alike.bind (fetchManifest_alike hreq.feed _ fun client hclient n found =>
      hpeers clients hclients client hclient _ _ n found hreq.feed)
    intro found hfound
    apply Alike.bind (ensureBlob_alike clients hfound found.2)
    intro _ _
    apply Alike.bind tick_alike
    intro n _
    exact artifactResult_alike hfound req.intent .peer
  · exact .fail _

variable {m : Manifest}

theorem fromPeerBlob_alike (req : ServeRequest) (hm : ¬ h.digests m.sha256) :
    Steady h Any (fromPeerBlob env req m) := by
  unfold fromPeerBlob
  split
  next clients _ _ =>
    apply Alike.bind (ensureBlob_alike clients hm m.size)
    intro _ _
    exact artifactResult_alike hm req.intent .peer
  · exact .fail _

/-! ## The upstream -/

def UpstreamResponse.Plain (h : Hidden) (env : ReadEnv) (response : UpstreamResponse) : Prop :=
  ∀ content, response.body = .ok content → ¬ h.digests (env.digest "sha256" content)

section

variable {up : Upstream} (hup : up.Plain h env)

include hup

theorem fetch_alike (target : FetchTarget) :
    Steady h (fun response => response.Plain h env) (fetch up target) := by
  apply Alike.bind tick_alike
  intro n _
  exact .lift fun response hresponse content => hup target n response content hresponse

theorem fetchAll_alike (target : FetchTarget) : Steady h Any (fetchAll up target) := by
  apply Alike.bind (fetch_alike hup target)
  intro response _
  apply Alike.bind (P := Any) (inContext_alike _ (.lift fun _ _ => trivial))
  intro body _
  exact .pure trivial

theorem fetchRemoteChecksum_alike (source : ChecksumSource) :
    Steady h Any (fetchRemoteChecksum up source) := by
  apply Alike.caught (fetchAll_alike hup _)
  · intro found _
    dsimp only
    split
    · exact .pure trivial
    · exact .fail _
  · intro error
    dsimp only
    split_ifs
    · exact .pure trivial
    · exact .fail _

theorem publishedChecksum_alike (req : ServeRequest) :
    Steady h Any (publishedChecksum req up) := by
  unfold publishedChecksum
  split_ifs
  · exact fetchRemoteChecksum_alike hup _
  · exact .pure trivial

theorem openArtifactStream_alike (req : ServeRequest) :
    Steady h (fun stream => stream.1.Plain h env) (openArtifactStream req up) := by
  unfold openArtifactStream
  split
  · apply Alike.bind (fetch_alike hup _)
    intro response hresponse
    exact .pure hresponse
  · apply Alike.bind (fetch_alike hup _)
    intro response hresponse
    split_ifs
    · exact .pure hresponse
    · split
      · exact .fail _
      · apply Alike.bind (P := Any) (inContext_alike _ (.lift fun _ _ => trivial))
        intro body _
        apply Alike.bind (P := Any) (inContext_alike _ (.lift fun _ _ => trivial))
        intro target _
        apply Alike.bind (P := Any) (.lift fun _ _ => trivial)
        intro url _
        apply Alike.bind (fetch_alike hup _)
        intro stream hstream
        exact .pure hstream

end

/-! ## Ingest -/

theorem storeBlob_alike (hsha : ¬ h.digests sha) (content : Bytes) :
    Steady h Any (storeBlob env sha content) := by
  apply Alike.caught (getBlob_alike hsha)
  · exact fun _ _ => .pure trivial
  · intro error
    dsimp only
    split_ifs
    · exact inContext_alike _ (putBlob_alike sha content)
    · exact .fail _

theorem SameView.putManifest (view : SameView h s t) (key : PathKey) (hm : ¬ h.digests m.sha256) :
    SameView h { s with manifests := s.manifests.put key (.ok m) }
      { t with manifests := t.manifests.put key (.ok m) } :=
  { view with
    manifests := by
      intro feed path hfeed
      rw [Table.find_put, Table.find_put, view.manifests feed path hfeed]
    named := by
      intro feed path other hfeed hfound
      rw [Table.find_put] at hfound
      split_ifs at hfound
      · cases hfound
        exact hm
      · exact view.named feed path other hfeed hfound }

theorem SameView.putDocument (view : SameView h s t) (key : PathKey) (document : Document) :
    SameView h { s with documents := s.documents.put key document }
      { t with documents := t.documents.put key document } :=
  { view with
    documents := by
      intro feed other hfeed
      rw [Table.find_put, Table.find_put, view.documents feed other hfeed] }

section Nested

variable {nested : ServeRequest → Reading Result}
  (hnested : ∀ req : ServeRequest, req.Plain h env → Steady h Any (nested req))
  (hreq : req.Plain h env)

include hnested hreq

theorem metadataChecksum_alike : Steady h Any (metadataChecksum nested req) := by
  unfold metadataChecksum
  split
  · exact .pure trivial
  · split
    · exact .pure trivial
    next metaIntent _ =>
      split_ifs
      · exact .pure trivial
      · apply Alike.caught (hnested { req with intent := metaIntent } ⟨hreq.feed, hreq.upstream⟩)
        · intro result _
          dsimp only
          split
          · exact .pure trivial
          · split <;> exact .pure trivial
        · exact fun _ => .pure trivial

variable {up : Upstream}

theorem expectedChecksum_alike (hup : up.Plain h env) :
    Steady h Any (expectedChecksum nested req up) := by
  apply Alike.bind (publishedChecksum_alike hup req)
  intro published _
  split_ifs
  · exact metadataChecksum_alike hnested hreq
  · exact .pure trivial

theorem fetchAndStore_alike (hup : up.Plain h env) :
    Steady h (fun m => ¬ h.digests m.sha256) (fetchAndStore env nested req up) := by
  apply Alike.bind (expectedChecksum_alike hnested hreq hup)
  intro expected _
  apply Alike.bind (openArtifactStream_alike hup req)
  intro stream hstream
  apply Alike.bind (P := fun content => ¬ h.digests (env.digest "sha256" content))
  · exact inContext_alike _ (.lift hstream)
  intro content hcontent
  apply Alike.bind (P := Any) (.lift fun _ _ => trivial)
  intro _ _
  apply Alike.bind (storeBlob_alike hcontent content)
  intro _ _
  apply Alike.bind (inContext_alike _ operation_alike)
  intro n _
  apply Alike.bind (P := Any)
  · exact .update fun s t view => view.putManifest _ hcontent
  · intro _ _
    exact .pure hcontent

theorem ingestArtifact_alike (hup : up.Plain h env) :
    Steady h (fun m => ¬ h.digests m.sha256) (ingestArtifact env nested req up) := by
  apply Alike.bind operation_alike
  intro _ _
  apply Alike.caught (loadManifest_alike hreq.feed _)
  · exact fun m hm => .pure hm
  · exact fun _ => fetchAndStore_alike hnested hreq hup

theorem serveArtifact_alike (hpeers : PlainPeers h env) :
    Steady h Any (serveArtifact env nested req) := by
  apply Alike.caught (loadManifest_alike hreq.feed _)
  · intro m hm
    apply Alike.caught (artifactResult_alike hm req.intent .cache)
    · exact fun _ _ => .pure trivial
    · intro error
      apply Alike.caught (fromPeerBlob_alike req hm)
      · exact fun _ _ => .pure trivial
      · exact fun _ => .fail _
  · intro error
    dsimp only
    split_ifs
    · exact .fail _
    · apply Alike.caught (fromPeer_alike hpeers hreq)
      · exact fun _ _ => .pure trivial
      · intro _
        dsimp only
        split
        · exact .fail _
        next up hup =>
          apply Alike.bind (ingestArtifact_alike hnested hreq (hreq.upstream up hup))
          intro m hm
          exact artifactResult_alike hm req.intent .upstream

end Nested

/-! ## Documents -/

variable {up : Upstream}

theorem refreshMetadata_alike (req : ServeRequest) (hup : up.Plain h env) (key : PathKey) :
    Steady h Any (refreshMetadata env req up key) := by
  apply Alike.bind (fetchAll_alike hup _)
  intro found _
  apply Alike.bind (P := Any) (inContext_alike _ (.lift fun _ _ => trivial))
  intro rewritten _
  apply Alike.bind (inContext_alike _ operation_alike)
  intro n _
  exact .update fun s t view => view.putDocument key _

theorem hostedDocument_alike (hreq : req.Plain h env) (hkey : ¬ h.feeds key.1) (cached : Bool) :
    Steady h Any (hostedDocument env req key cached) := by
  apply Alike.caught (loadManifest_alike hreq.feed _)
  · exact fun m hm => openBlob_alike hm .here
  · intro _
    dsimp only
    split_ifs
    · exact openMeta_alike hkey .here
    · exact .fail _

theorem proxiedDocument_alike (req : ServeRequest) (hup : up.Plain h env) (hkey : ¬ h.feeds key.1)
    (cached : Bool) : Steady h Any (proxiedDocument env req up key cached) := by
  apply Alike.caught (refreshMetadata_alike req hup key)
  · exact fun _ _ => openMeta_alike hkey .upstream
  · intro error
    dsimp only
    split_ifs
    · exact .fail _
    · exact openMeta_alike hkey .stale
    · exact .fail _

theorem metaKey_feed (feed : Feed) (intent : Intent) : (metaKey env feed intent).1 = feed.name := by
  unfold metaKey
  split_ifs <;> rfl

theorem serveMetadataBody_alike (hreq : req.Plain h env) :
    Steady h Any (serveMetadataBody env req) := by
  have hkey : ¬ h.feeds (metaKey env req.feed req.intent).1 := by
    rw [metaKey_feed]
    exact hreq.feed
  apply Alike.bind (getDocument_alike hkey).attempt
  intro found _
  apply Alike.bind tick_alike
  intro n _
  dsimp only
  split_ifs
  · exact openMeta_alike hkey .cache
  · split
    · exact hostedDocument_alike hreq hkey _
    next up hup => exact proxiedDocument_alike req (hreq.upstream up hup) hkey _

theorem serveMetadata_alike (hreq : req.Plain h env) : Steady h Any (serveMetadata env req) := by
  apply Alike.bind (serveMetadataBody_alike hreq)
  intro result _
  split_ifs
  · exact .pure trivial
  · split
    · exact .fail _
    · exact .pure trivial

/-! ## Serving -/

variable (hpeers : PlainPeers h env)

include hpeers

theorem serveWith_alike {nested : ServeRequest → Reading Result}
    (hnested : ∀ req : ServeRequest, req.Plain h env → Steady h Any (nested req))
    (hreq : req.Plain h env) : Steady h Any (serveWith env nested req) := by
  unfold serveWith
  split_ifs
  · exact .fail _
  · split
    · exact serveArtifact_alike hnested hreq hpeers
    · exact serveMetadata_alike hreq
    · exact serveMetadata_alike hreq
    · exact .fail _

theorem serveAt_alike (depth : Nat) (hreq : req.Plain h env) :
    Steady h Any (serveAt env depth req) := by
  induction depth generalizing req with
  | zero => exact serveWith_alike hpeers (fun _ _ => .fail _) hreq
  | succ depth ih => exact serveWith_alike hpeers (fun _ hother => ih hother) hreq

/-- Two stores that agree on all but what is hidden serve a request for another feed alike. -/
theorem serve_alike (hreq : req.Plain h env) : Steady h Any (serve env req) :=
  serveAt_alike hpeers env.depth hreq

end FondacoFormal.Pipeline
