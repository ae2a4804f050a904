import FondacoFormal.Server.GroupStage
import FondacoFormal.Server.ReadDecision

/-!
# Reading through a peer

A site that has not received a coordinate yet asks its peers for the row and for the blob.
-/

namespace FondacoFormal.Server

open Library Library.Program State Pipeline Api Auth Repl.Transfer

/-! ## The peer -/

/-- `handleManifest`, as the client reads its answer. -/
def handleManifest (pg : Postgres) (t : SiteState) (feed path : String) :
    Except Failure (String × Int) :=
  if feed = "" ∨ path = "" then .error ⟨none, "peer manifest lookup returned 400"⟩
  else
    match (listHosted pg feed path t.hosted).find? fun row => row.1.2 = path with
    | none => .error ⟨some .notFound, "not found"⟩
    | some row => .ok (row.2.sha256, row.2.size)

def peerClient (pg : Postgres) (peer : ReadStore) : PeerClient where
  manifest feed path _ := handleManifest pg peer.tables feed path
  blob _ _ := handleBlob peer.blobs.find

/-! ## What a client asks for -/

/-- A client asks for an artifact of which the site has no manifest, and the first peer has the
coordinate in quarantine, its row and its bytes. -/
structure ReadsThrough (sha : Sha256) (pg : Postgres) (peer : ReadStore) (server : ReadServer)
    (fr : ReadFeed) (req : ReadRequest) (s : ReadStore) (intent : Intent) (content : Bytes) :
    Prop where
  hash : server.env.digest "sha256" = sha.sum
  calm : ∀ n, server.env.fault n = none
  peers : ∃ rest, server.env.peers = some (peerClient pg peer :: rest)
  fallback : fr.peerFallback = true
  parsed : fr.module.parse req = .ok intent
  kind : intent.kind = .artifact
  bytes : intent.wantChecksum = ""
  path : validRemotePath intent.remotePath = true
  absent : s.manifests.find (fr.feed.name, intent.remotePath) = none
  notMissed : s.missing.find (fr.feed.name, intent.remotePath) = none
  stored : ∀ held, s.blobs.find (sha.sum content) = some held → held = content
  quarantined : quarantinedAt peer fr.feed.name intent.coord.text
  row : handleManifest pg peer.tables fr.feed.name intent.remotePath =
    .ok (sha.sum content, content.length)
  blob : peer.blobs.find (sha.sum content) = some content
  length : (content.length : Int) ≤ 2 ^ 63 - 2 ^ 20 - 2

/-- The client gets the bytes, or is sent to where they lie. -/
def SendsBytes (server : ReadServer) (fr : ReadFeed) (id : Identity) (req : ReadRequest)
    (s : ReadStore) (content : Bytes) : Prop :=
  ∃ response, (feedHandler server fr id req s).2 = .ok response ∧
    (response.status = 200 ∧ response.body = content ∨ response.status = 302)

/-! ## The run -/

section Run

variable {env : ReadEnv} {sha : Sha256} {pg : Postgres} {peer : ReadStore}
  {rest : List PeerClient} {content : Bytes} {s : ReadStore}

section

variable (hcalm : ∀ n, env.fault n = none) (hhash : env.digest "sha256" = sha.sum)
  (hblob : peer.blobs.find (sha.sum content) = some content)
  (hlength : (content.length : Int) ≤ 2 ^ 63 - 2 ^ 20 - 2)

include hcalm hhash hblob hlength

theorem fetchBlob_first (s : ReadStore) :
    fetchBlob env (peerClient pg peer) (sha.sum content) content.length s =
      ({ s with ticks := s.ticks + 2, blobs := s.blobs.put (sha.sum content) content },
        .ok ()) := by
  have honest : Honest sha ((peerClient pg peer).blob s.ticks) (sha.sum content)
      content.length content fun _ => none :=
    { served := ⟨peer.blobs.find, hblob, fun _ _ => (interrupted_none _).symm⟩
      hashed := rfl
      sized := .inl rfl
      inside := fun _ _ hcut => nomatch hcut
      uncut := ⟨0, by decide, rfl⟩ }
  obtain ⟨herror, hput⟩ := honest.fetched hlength
  have hspool := congrArg Storage.PutCall.content (fetchBlob_put hput).1
  dsimp only at hspool
  have hrun : putBlob env (sha.sum content) content { s with ticks := s.ticks + 1 } =
      ({ s with ticks := s.ticks + 2, blobs := s.blobs.put (sha.sum content) content },
        .ok ()) := by
    unfold putBlob
    rw [bind_of_ok (operation_run (hcalm _))]
    rfl
  refine bind_tick.trans ?_
  rw [hhash, herror]
  dsimp only
  rw [← hspool]
  exact bind_of_ok (attempt_run hrun)

theorem ensureBlob_first
    (hstored : ∀ held, s.blobs.find (sha.sum content) = some held → held = content) :
    ∃ t, ensureBlob env (peerClient pg peer :: rest) (sha.sum content) content.length s =
      (t, .ok ()) ∧ t.blobs.find (sha.sum content) = some content := by
  cases hfind : s.blobs.find (sha.sum content) with
  | some held =>
    refine ⟨{ s with ticks := s.ticks + 1 }, ?_, hstored held hfind ▸ hfind⟩
    exact bind_of_ok (attempt_run (getBlob_found (hcalm _) hfind))
  | none =>
    have habsent : getBlob env (sha.sum content) s = ({ s with ticks := s.ticks + 1 },
        .error (.wrapping .notFound ("blob " ++ Storage.blobKey (sha.sum content)))) := by
      unfold getBlob
      rw [bind_of_ok (operation_run (hcalm _)), bind_reads, hfind]
      rfl
    refine ⟨{ s with ticks := s.ticks + 3, blobs := s.blobs.put (sha.sum content) content }, ?_,
      Table.find_put_self _ _ _⟩
    refine (bind_of_ok (attempt_run habsent)).trans ?_
    exact bind_of_ok (attempt_run (fetchBlob_first hcalm hhash hblob hlength _))

end

theorem fetchManifest_first {feed path : String}
    (hrow : handleManifest pg peer.tables feed path = .ok (sha.sum content, content.length))
    (hmissed : s.missing.find (feed, path) = none) :
    fetchManifest env (peerClient pg peer :: rest) feed path s =
      ({ s with ticks := s.ticks + 2 }, .ok (sha.sum content, content.length)) := by
  have hlength : (sha.sum content).utf8ByteSize = 64 := by
    have hdigest := sha.isDigest_sum content
    rw [isDigest, Bool.and_eq_true, decide_eq_true_eq] at hdigest
    exact hdigest.1
  have hheld : recentlyMissing env (feed, path) s =
      ({ s with ticks := s.ticks + 1 }, .ok false) := by
    refine bind_tick.trans ?_
    rw [bind_reads, hmissed]
    rfl
  have hasked : clientManifest (peerClient pg peer) feed path { s with ticks := s.ticks + 1 } =
      ({ s with ticks := s.ticks + 2 }, .ok (sha.sum content, content.length)) := by
    refine bind_tick.trans ?_
    have hanswer : ∀ n, (peerClient pg peer).manifest feed path n = _ := fun _ => hrow
    rw [hanswer]
    change (if (sha.sum content).utf8ByteSize ≠ 64 then fail _ else pure _ : Reading _) _ = _
    rw [if_neg (not_not.mpr hlength)]
    rfl
  exact (bind_of_ok hheld).trans (bind_of_ok (attempt_run hasked))

end Run

/-- What `fromPeer` makes of the bytes. -/
def peerResult (sha : String) (content : Bytes) : Result where
  body := content
  size := content.length
  sha256 := sha
  source := .peer
  blobKey := Storage.blobKey sha

section

variable {sha : Sha256} {pg : Postgres} {peer : ReadStore} {server : ReadServer} {fr : ReadFeed}
  {req : ReadRequest} {s : ReadStore} {intent : Intent} {content : Bytes}

theorem ReadsThrough.serve_run
    (reads : ReadsThrough sha pg peer server fr req s intent content) {t : ReadStore}
    (same : SameObjects t s) :
    (serve server.env (fr.request intent) t).2 = .ok (peerResult (sha.sum content) content) := by
  obtain ⟨rest, hpeers⟩ := reads.peers
  obtain ⟨nested, hserve⟩ : ∃ nested, serve server.env (fr.request intent) =
      serveArtifact server.env nested (fr.request intent) := serve_artifact reads.path reads.kind
  have habsent : loadManifest server.env (fr.request intent).feed.name
      (fr.request intent).intent.remotePath t = _ :=
    loadManifest_absent (reads.calm _) (same.manifests ▸ reads.absent)
  obtain ⟨after, hpeer⟩ : ∃ after, fromPeer server.env (fr.request intent)
      { t with ticks := t.ticks + 1 } =
        (after, .ok (peerResult (sha.sum content) content)) := by
    obtain ⟨last, hensured, hfind⟩ : ∃ last, ensureBlob server.env (peerClient pg peer :: rest)
        (sha.sum content) content.length { t with ticks := t.ticks + 3 } = (last, .ok ()) ∧
          last.blobs.find (sha.sum content) = some content :=
      ensureBlob_first reads.calm reads.hash reads.blob reads.length (same.blobs ▸ reads.stored)
    refine ⟨{ last with ticks := last.ticks + 2 }, ?_⟩
    unfold fromPeer
    rw [hpeers, show (fr.request intent).peerFallback = true from reads.fallback]
    refine (bind_of_ok (fetchManifest_first reads.row (same.missing ▸ reads.notMissed))).trans ?_
    refine (bind_of_ok hensured).trans ?_
    refine bind_tick.trans ?_
    unfold artifactResult
    rw [if_pos (show (fr.request intent).intent.wantChecksum = "" from reads.bytes)]
    have hget : getBlob server.env (sha.sum content) { last with ticks := last.ticks + 1 } =
        ({ last with ticks := last.ticks + 2 }, .ok content) := getBlob_found (reads.calm _) hfind
    exact bind_of_ok (bind_of_ok (attempt_run hget))
  have hrun : serveArtifact server.env nested (fr.request intent) t =
      (after, .ok (peerResult (sha.sum content) content)) := by
    refine (bind_of_ok (attempt_run habsent)).trans ?_
    exact bind_of_ok (attempt_run hpeer)
  rw [hserve, hrun]

/-- The peer's quarantine keeps its bytes from the client exactly when the site that reads
through it has the coordinate in quarantine itself, or its own access rule or policies refuse
the artifact. -/
theorem peer_blocks_kept_iff (reads : ReadsThrough sha pg peer server fr req s intent content)
    (id : Identity) :
    ¬ SendsBytes server fr id req s content ↔
      OwnRefusal server fr id intent s (peerResult (sha.sum content) content) := by
  obtain ⟨response, hrun, ⟨hstatus, hrefusal⟩ | ⟨hpassed, hsent⟩⟩ :=
    feedHandler_decided reads.calm reads.parsed reads.kind (fun _ => reads.serve_run) id
  · refine iff_of_true ?_ hrefusal
    rintro ⟨other, hother, hsent⟩
    cases hrun.symm.trans hother
    omega
  · exact iff_of_false (not_not.mpr ⟨response, hrun, hsent.imp_right And.left⟩) hpassed

end

def someDigest : String :=
  String.ofList (List.replicate 64 'a')

def someHash : Sha256 where
  sum _ := someDigest
  isDigest_sum _ := by decide +kernel

def blockingPeer : ReadStore where
  manifests := (∅ : Table PathKey (Except Failure Manifest)).put ("open", "pkg")
    (.ok (manifestOf someDigest))
  blobs := (∅ : Table String Bytes).put someDigest [1]
  tables :=
    { hosted := (∅ : Table PathKey HostedRow).put ("open", "pkg")
        ⟨"raw:pkg", someDigest, 1, [], {}, false, "here", "here", "token:t"⟩
      quarantine := (∅ : Table QuarantineKey QuarantineRow).put ("open", "raw:pkg", "manual")
        ⟨"malware", true, ⟨1, 0⟩⟩ }

def sampleServer (peers : Option (List PeerClient)) : ReadServer where
  env := { calmEnv with digest := fun _ => someHash.sum, peers := peers }
  engine := readersEngine
  database := true
  quarantineTTL := 30

def throughPeer : ReadServer :=
  sampleServer (some [peerClient .plain blockingPeer])

def laggingFeed : ReadFeed :=
  { pkgFeed "open" with peerFallback := true }

theorem peer_blocks_kept_lagging :
    ReadsThrough someHash .plain blockingPeer throughPeer laggingFeed ⟨"GET", "pkg", ""⟩ {}
        pkgIntent [1] ∧
      (¬ SendsBytes throughPeer laggingFeed stranger ⟨"GET", "pkg", ""⟩ {} [1] ↔
        OwnRefusal throughPeer laggingFeed stranger pkgIntent {} (peerResult someDigest [1])) := by
  have hreads : ReadsThrough someHash .plain blockingPeer throughPeer laggingFeed
      ⟨"GET", "pkg", ""⟩ {} pkgIntent [1] :=
    { hash := rfl
      calm := fun _ => rfl
      peers := ⟨[], rfl⟩
      fallback := rfl
      parsed := rfl
      kind := rfl
      bytes := rfl
      path := by decide
      absent := rfl
      notMissed := rfl
      stored := fun _ hfind => nomatch hfind
      quarantined := by unfold quarantinedAt; decide +kernel
      row := by decide +kernel
      blob := by decide +kernel
      length := by decide }
  exact ⟨hreads, peer_blocks_kept_iff hreads stranger⟩

/-- The peer refuses its own client; the site that reads through it serves the bytes. -/
theorem blocked_bytes_through_peer :
    (feedHandler (sampleServer none) (pkgFeed "open") stranger ⟨"GET", "pkg", ""⟩
        blockingPeer).2.toOption.map (·.status) = some 409 ∧
    (feedHandler throughPeer laggingFeed stranger ⟨"GET", "pkg", ""⟩ {}).2.toOption.map
      (fun response => (response.status, response.body)) = some (200, [1]) := by
  decide +kernel

end FondacoFormal.Server
