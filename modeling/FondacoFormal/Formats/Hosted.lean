import FondacoFormal.Api.Intent
import FondacoFormal.Server.Publish

/-!
# Publishing packages

What the hosting modules have in common: each content is staged as a blob under its digest and
then committed under a coordinate and a path.
-/

namespace FondacoFormal.Formats

open Library State Repl Pipeline Api Server

/-- `fmt.Errorf("%w: ..", sentinel)`. -/
def refusal (sentinel : Sentinel) (text : String) : Failure :=
  ⟨some sentinel, sentinel.text ++ ": " ++ text⟩

/-- One content, the coordinate it is committed under and the path it is served at. -/
structure Publication where
  path : String
  coord : PackageCoordinate
  body : Bytes
  checksums : StringMap := []
  metadata : Option Metadata := none
  mutable : Bool := false

/-- The request `Publish` gets for a staged content. -/
def Publication.request (sha256 : Bytes → String) (feed : String) (p : Publication) :
    PublishRequest where
  feed := feed
  path := p.path
  coord := p.coord.text
  sha256 := sha256 p.body
  size := p.body.length
  checksums := p.checksums
  metadata := p.metadata
  mutable := p.mutable
  identity := ""

/-- `publishBlob`: stage a content, then commit it; `context` names the staging in errors. -/
def publishBlob (sha256 : Bytes → String) (feed context : String) (p : Publication)
    (next : Handling) : Handling :=
  .ask (.put (Storage.blobKey (sha256 p.body)) p.body ⟨sha256 p.body, p.body.length, ""⟩) fun
    | .error error => .fail (error.within context)
    | .ok _ => .publish (p.request sha256 feed) fun
        | .error error => .fail error
        | .ok _ => next

def publishAll (sha256 : Bytes → String) (feed : String) (last : Handling) :
    List (String × Publication) → Handling
  | [] => last
  | (context, p) :: rest => publishBlob sha256 feed context p (publishAll sha256 feed last rest)

def created : Handling :=
  .respond ⟨201, [], []⟩

section Runs

variable {core : Core} {feed : String}
  {publishing : PublishRequest → Home → Home × Except Failure PublishResult}

def Accepts (core : Core) (feed : String)
    (publishing : PublishRequest → Home → Home × Except Failure PublishResult)
    (work : Handling) (h : Home) : Prop :=
  ∃ after response, work.run core feed publishing h = (after, .ok response)

def answers (result : Home × Except Failure Response) : Bool :=
  result.2.toOption.isSome

theorem accepts_of_answers {work : Handling} {h : Home}
    (hanswers : answers (work.run core feed publishing h) = true) :
    Accepts core feed publishing work h := by
  rcases hrun : work.run core feed publishing h with ⟨after, error | response⟩
  · rw [hrun] at hanswers
    exact absurd hanswers Bool.false_ne_true
  · exact ⟨after, response, hrun⟩

end Runs

def quietCore (sha256 : Bytes → String) : Core where
  publisher := ⟨"home", .plain, false⟩
  enabled := true
  hash := sha256
  clock _ := ⟨0, 0, 0, 0⟩
  now _ := 0
  draw _ := .ok "00000000"
  fault _ := none

end FondacoFormal.Formats
