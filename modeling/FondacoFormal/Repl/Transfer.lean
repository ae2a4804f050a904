import FondacoFormal.Library.Text
import FondacoFormal.Storage.Put

/-!
# Blob transfer between two sites

`FetchBlob` spools a blob from a peer, hashing it on the way, and resumes an interrupted
transfer with a range request. `handleBlob` is the other end.
-/

namespace FondacoFormal.Repl.Transfer

open Library Storage

/-! ## What travels -/

/-- A blob request: the digest of the URL and the `Range` header, `""` without one. -/
structure BlobRequest where
  digest : String
  range : String
  deriving DecidableEq, Repr

inductive Ending where
  | complete
  /-- The connection broke: the reader sees an error after the last byte. -/
  | broken
  deriving DecidableEq, Repr

/-- What one `Do` of the HTTP client comes back with. -/
inductive Answer where
  | unreachable
  | response (status : Nat) (body : Bytes) (ending : Ending)
  deriving DecidableEq, Repr

/-- A peer: its answer to the `n`-th request of a transfer. -/
abbrev Peer := Nat → BlobRequest → Answer

inductive TransferFault where
  | tooMuch
  | unreachable
  | notFound
  | noResume
  | resume (code : Nat)
  | status (code : Nat)
  | read
  | exceeded
  | checksumMismatch (got : String)
  | size (written : Nat)
  deriving DecidableEq, Repr

/-! ## The receiving end -/

/-- `maxUnsizedBlob`. -/
def maxUnsizedBlob : Int := 2 ^ 33

/-- The most `FetchBlob` is ready to spool, computed with 64-bit wrap-around. -/
def limitFor (size : Int) : Int :=
  if size ≤ 0 then maxUnsizedBlob else wrap64 (size + 2 ^ 20)

/-- The request `streamBlob` builds. -/
def blobRequest (digest : String) (offset : Nat) : BlobRequest :=
  ⟨digest, if 0 < offset then "bytes=" ++ toString offset ++ "-" else ""⟩

/-- `io.Copy` through a `LimitReader` of `limit + 1` bytes. -/
def copyLimited (limit : Int) (body : Bytes) (ending : Ending) : Bytes × Option TransferFault :=
  let allowance := wrap64 (limit + 1)
  let copied := body.take allowance.toNat
  -- A reader that stops at its allowance never sees how the body ends.
  if ending = .broken ∧ (body.length : Int) < allowance then (copied, some .read)
  else if limit < copied.length then (copied, some .exceeded)
  else (copied, none)

/-- `streamBlob` once the peer has answered: the bytes copied, and the error. -/
def streamBlob (offset : Nat) (limit : Int) : Answer → Bytes × Option TransferFault
  | .unreachable => ([], some .unreachable)
  | .response status body ending =>
    if status = 404 then ([], some .notFound)
    else if 0 < offset ∧ status = 200 then ([], some .noResume)
    else if 0 < offset ∧ status ≠ 206 then ([], some (.resume status))
    else if offset = 0 ∧ status ≠ 200 then ([], some (.status status))
    else copyLimited limit body ending

/-- The temporary file, which holds what the hash was fed, and the requests made. -/
structure Spool where
  bytes : Bytes
  asked : List BlobRequest
  deriving DecidableEq, Repr

def Spool.extended (spool : Spool) (digest : String) (got : Bytes) : Spool :=
  ⟨spool.bytes ++ got, spool.asked ++ [blobRequest digest spool.bytes.length]⟩

def attempt (peer : Peer) (digest : String) (limit : Int) (spool : Spool) :
    Bytes × Option TransferFault :=
  streamBlob spool.bytes.length (wrap64 (limit - spool.bytes.length))
    (peer spool.asked.length (blobRequest digest spool.bytes.length))

/-- The loop of `FetchBlob`, with the attempts left and the last error. -/
def attempts (peer : Peer) (digest : String) (limit : Int) :
    Nat → Spool → Option TransferFault → Spool × Option TransferFault
  | 0, spool, last => (spool, last)
  | left + 1, spool, _ =>
    if limit < spool.bytes.length then (spool, some .tooMuch)
    else
      match attempt peer digest limit spool with
      | (got, none) => (spool.extended digest got, none)
      | (got, some fault) =>
        -- Nothing was transferred: retrying the same range is futile.
        if fault = .notFound ∨ got = [] then (spool.extended digest got, some fault)
        else attempts peer digest limit left (spool.extended digest got) (some fault)

/-- What a transfer did: the spool, the error it returned, the `Put` it made. -/
structure Fetch where
  spool : Spool
  error : Option TransferFault
  put : Option PutCall
  deriving DecidableEq, Repr

/-- `FetchBlob`. -/
def fetchBlob (hash : Bytes → String) (peer : Peer) (digest : String) (size : Int) : Fetch :=
  match attempts peer digest (limitFor size) 3 ⟨[], []⟩ none with
  | (spool, some fault) => ⟨spool, some fault, none⟩
  | (spool, none) =>
    if hash spool.bytes ≠ digest then
      ⟨spool, some (.checksumMismatch (hash spool.bytes)), none⟩
    else if 0 < size ∧ (spool.bytes.length : Int) ≠ size then
      ⟨spool, some (.size spool.bytes.length), none⟩
    else
      ⟨spool, none, some ⟨blobKey digest, spool.bytes,
        { sha256 := digest, size := spool.bytes.length }⟩⟩

/-! ## The sending end -/

/-- `strconv.ParseInt(s, 10, 64)`. -/
def parseInt (s : List Char) : Option Int :=
  let negative := s.head? = some '-'
  let digits := if s.head? = some '-' ∨ s.head? = some '+' then s.tail else s
  let value : Nat := Nat.ofDigitChars 10 digits 0
  if digits = [] ∨ digits.any (fun c => !c.isDigit) then none
  else if negative then if value ≤ 2 ^ 63 then some (-value) else none
  else if value < 2 ^ 63 then some value else none

/-- `parseResumeOffset`: the start of a `bytes=<start>-` header. -/
def parseResumeOffset (header : String) : Option Nat :=
  if !Text.hasPrefix header "bytes=" then none
  else
    match Text.cut (Text.trimPrefix header "bytes=") '-' with
    | none => none
    | some (start, rest) =>
      if rest ≠ "" then none
      else
        match parseInt start.toList with
        | none => none
        | some n => if n < 0 then none else some n.toNat

/-- The digests `handleBlob` looks up: sixty-four lower-case hexadecimal digits. -/
def isDigest (digest : String) : Bool :=
  digest.utf8ByteSize = 64 && digest.toList.all "0123456789abcdef".toList.contains

/-- `http.Error`. -/
def errorPage (status : Nat) (text : String) : Answer :=
  .response status (text ++ "\n").toUTF8.data.toList .complete

/-- `handleBlob` of a site whose store holds the blobs `stored` gives. -/
def handleBlob (stored : String → Option Bytes) (request : BlobRequest) : Answer :=
  if !isDigest request.digest then errorPage 404 "not found"
  else
    match stored request.digest with
    | none => errorPage 404 "not found"
    | some content =>
      let start := (parseResumeOffset request.range).getD 0
      if 0 < start then
        if 0 < content.length ∧ content.length ≤ start then .response 416 [] .complete
        else if content.length < start then errorPage 500 "internal error"
        else .response 206 (content.drop start) .complete
      else .response 200 content .complete

/-! ## No answer makes the spool outgrow its limit -/

theorem copyLimited_bytes (limit : Int) (body : Bytes) (ending : Ending) :
    (copyLimited limit body ending).1 = body.take (wrap64 (limit + 1)).toNat := by
  rw [copyLimited]
  split_ifs <;> rfl

theorem streamBlob_bytes (offset : Nat) (limit : Int) (answer : Answer) :
    ((streamBlob offset limit answer).1.length : Int) ≤ (wrap64 (limit + 1)).toNat := by
  cases answer with
  | unreachable => simp [streamBlob]
  | response status body ending =>
    rw [streamBlob]
    split_ifs
    iterate 4 simp
    rw [copyLimited_bytes, List.length_take]
    omega

theorem limitFor_lt (size : Int64) : limitFor size.toInt < 2 ^ 63 := by
  rw [limitFor, maxUnsizedBlob, wrap64]
  split
  · omega
  · have := Int.bmod_lt (x := size.toInt + 2 ^ 20) (m := 2 ^ 64) (by omega)
    omega

variable {limit : Int} {spool : Spool}

theorem attempt_bytes (hlimit : limit < 2 ^ 63) (peer : Peer) (digest : String)
    (hwithin : (spool.bytes.length : Int) ≤ limit) :
    ((spool.bytes.length + (attempt peer digest limit spool).1.length : Nat) : Int) ≤
      limit + 1 := by
  have hbytes := streamBlob_bytes spool.bytes.length (wrap64 (limit - spool.bytes.length))
    (peer spool.asked.length (blobRequest digest spool.bytes.length))
  rw [wrap64_eq (by omega) (by omega)] at hbytes
  rw [attempt, wrap64_eq (n := limit - spool.bytes.length) (by omega) (by omega)]
  by_cases hfull : limit - spool.bytes.length + 1 < 2 ^ 63
  · rw [wrap64_eq (by omega) hfull] at hbytes
    omega
  · -- The allowance wraps around to the least integer: nothing is read.
    have hwraps : limit - spool.bytes.length + 1 = 2 ^ 63 := by omega
    rw [hwraps, show (wrap64 (2 ^ 63)).toNat = 0 by decide] at hbytes
    omega

/-- What holds of the spool from the first attempt to the last, `left` of them remaining. -/
structure Spooling (limit : Int) (left : Nat) (spool : Spool) : Prop where
  bounded : (spool.bytes.length : Int) ≤ max 0 (limit + 1)
  asked : spool.asked.length + left ≤ 3

theorem Spooling.extended (hlimit : limit < 2 ^ 63) (peer : Peer) (digest : String) {left : Nat}
    (h : Spooling limit (left + 1) spool) (hwithin : (spool.bytes.length : Int) ≤ limit) :
    Spooling limit left (spool.extended digest (attempt peer digest limit spool).1) := by
  constructor
  · have := attempt_bytes hlimit peer digest hwithin
    rw [Spool.extended, List.length_append]
    omega
  · have := h.asked
    simp only [Spool.extended, List.length_append, List.length_singleton]
    omega

theorem Spooling.finished {left : Nat} (h : Spooling limit left spool) : Spooling limit 0 spool :=
  ⟨h.bounded, by have := h.asked; omega⟩

theorem attempts_spooling (hlimit : limit < 2 ^ 63) (peer : Peer) (digest : String) (left : Nat)
    (spool : Spool) (last : Option TransferFault) (h : Spooling limit left spool) :
    Spooling limit 0 (attempts peer digest limit left spool last).1 := by
  induction left generalizing spool last with
  | zero => exact h
  | succ left ih =>
    rw [attempts]
    split
    · exact h.finished
    · have hnext := h.extended hlimit peer digest (by omega)
      split
      · rename_i got hattempt
        rw [hattempt] at hnext
        exact hnext.finished
      · rename_i got fault hattempt
        rw [hattempt] at hnext
        split
        · exact hnext.finished
        · exact ih _ _ hnext

/-! ## What is stored was checked -/

/-- A transfer ends with the attempts' error, or checks the spool and hands it to the store. -/
theorem fetchBlob_spool (hash : Bytes → String) (peer : Peer) (digest : String) (size : Int) :
    (fetchBlob hash peer digest size).spool =
      (attempts peer digest (limitFor size) 3 ⟨[], []⟩ none).1 := by
  rw [fetchBlob]
  split
  · rename_i h
    rw [h]
  · rename_i h
    rw [h]
    split_ifs <;> rfl

theorem fetchBlob_put {hash : Bytes → String} {peer : Peer} {digest : String} {size : Int}
    {call : PutCall} (hput : (fetchBlob hash peer digest size).put = some call) :
    call = ⟨blobKey digest, (fetchBlob hash peer digest size).spool.bytes,
        { sha256 := digest, size := (fetchBlob hash peer digest size).spool.bytes.length }⟩ ∧
      hash (fetchBlob hash peer digest size).spool.bytes = digest ∧
      (0 < size → ((fetchBlob hash peer digest size).spool.bytes.length : Int) = size) := by
  rw [fetchBlob] at hput ⊢
  split at hput
  · cases hput
  · split_ifs at hput ⊢ with hhash hsize
    obtain rfl := (Option.some.inj hput).symm
    refine ⟨rfl, not_not.mp hhash, fun hpositive => ?_⟩
    by_contra hne
    exact hsize ⟨hpositive, hne⟩

/-! ## The resume offset arrives as it was sent -/

variable {n : Nat}

theorem parseInt_toString (hn : n < 2 ^ 63) : parseInt (toString n).toList = some (n : Int) := by
  have hdigits : ∀ c ∈ Nat.toDigits 10 n, c.isDigit = true :=
    fun c hc => Nat.isDigit_of_mem_toDigits (by omega) (by omega) hc
  have hhead : ∀ c, c.isDigit = false → (Nat.toDigits 10 n).head? ≠ some c := by
    intro c hc h
    rw [hdigits c (List.mem_of_head? h)] at hc
    cases hc
  have hminus := hhead '-' (by decide)
  have hplus := hhead '+' (by decide)
  have hall : (Nat.toDigits 10 n).any (fun c => !c.isDigit) = false := by
    rw [List.any_eq_false]
    intro c hc
    simp [hdigits c hc]
  rw [Nat.toString_eq_repr, Nat.toList_repr, parseInt]
  simp only [hminus, hplus, hall, Nat.toDigits_ne_nil, Nat.ofDigitChars_ten_toDigits, hn, or_self,
    if_false, if_true, Bool.false_eq_true]

theorem cut_toString (n : Nat) :
    Text.cut (toString n ++ "-") '-' = some (toString n, "") := by
  have hno : '-' ∉ (toString n).toList := by
    intro h
    rw [Nat.toString_eq_repr, Nat.toList_repr] at h
    have := Nat.isDigit_of_mem_toDigits (by omega) (by omega) h
    revert this
    decide
  have hcut : Text.cutChars '-' ((toString n).toList ++ ['-']) = some ((toString n).toList, []) :=
    Text.cutChars_append hno
  rw [Text.cut, String.toList_append, show "-".toList = ['-'] from rfl, hcut, Option.map_some,
    String.ofList_toList, String.ofList_nil]

theorem parseResumeOffset_range (hn : n < 2 ^ 63) :
    parseResumeOffset ("bytes=" ++ toString n ++ "-") = some n := by
  have hstart : Text.hasPrefix ("bytes=" ++ toString n ++ "-") "bytes=" = true := by
    rw [String.append_assoc]
    exact Text.hasPrefix_append _ _
  have htrim : Text.trimPrefix ("bytes=" ++ toString n ++ "-") "bytes=" = toString n ++ "-" := by
    rw [String.append_assoc]
    exact Text.trimPrefix_append _ _
  simp only [parseResumeOffset, hstart, htrim, cut_toString, parseInt_toString hn, Bool.not_true,
    Bool.false_eq_true, if_false, ne_eq, not_true, Int.toNat_natCast]
  rw [if_neg (by omega)]

theorem handleBlob_rest {stored : String → Option Bytes} {digest : String} {content : Bytes}
    (hdigest : isDigest digest = true) (hstored : stored digest = some content)
    (hlength : content.length < 2 ^ 63) {offset : Nat}
    (hoffset : offset = 0 ∨ offset < content.length) :
    handleBlob stored (blobRequest digest offset) =
      .response (if 0 < offset then 206 else 200) (content.drop offset) .complete := by
  rw [handleBlob, blobRequest]
  by_cases hpositive : 0 < offset
  · have hless : offset < content.length := by omega
    have hparse := parseResumeOffset_range (n := offset) (by omega)
    simp only [hdigest, hstored, hpositive, hparse, Bool.not_true, Bool.false_eq_true, if_false,
      if_true, Option.getD_some]
    rw [if_neg (by omega), if_neg (by omega)]
  · have hzero : offset = 0 := by omega
    have hnone : parseResumeOffset "" = none := by decide
    simp [hdigest, hstored, hzero, hnone]

/-! ## An honest peer -/

structure Sha256 where
  sum : Bytes → String
  isDigest_sum : ∀ content, isDigest (sum content) = true

/-- An answer, or what is left of it when the connection breaks after `k` bytes. -/
def interrupted : Option Nat → Answer → Answer
  | some k, .response status body _ => .response status (body.take k) .broken
  | _, answer => answer

@[simp] theorem interrupted_none (answer : Answer) : interrupted none answer = answer := by
  cases answer <;> rfl

/-- How much has arrived before the `n`-th request when every earlier one was cut. -/
def offsetAt (cuts : Nat → Option Nat) : Nat → Nat
  | 0 => 0
  | n + 1 => offsetAt cuts n + (cuts n).getD 0

/-- Every answer is `handleBlob`'s, of a site that holds the blob `content`; the `n`-th is cut
after `cuts n` bytes. -/
structure Honest (sha : Sha256) (peer : Peer) (digest : String) (size : Int) (content : Bytes)
    (cuts : Nat → Option Nat) : Prop where
  served : ∃ stored, stored digest = some content ∧
    ∀ n request, peer n request = interrupted (cuts n) (handleBlob stored request)
  hashed : sha.sum content = digest
  sized : size = content.length ∨ size ≤ 0 ∧ (content.length : Int) ≤ maxUnsizedBlob
  /-- A cut leaves at least one byte behind it and at least one before it. -/
  inside : ∀ n k, cuts n = some k → 0 < k ∧ offsetAt cuts n + k < content.length
  uncut : ∃ n < 3, cuts n = none

namespace Honest

variable {sha : Sha256} {peer : Peer} {digest : String} {size : Int} {content : Bytes}
  {cuts : Nat → Option Nat}

variable (h : Honest sha peer digest size content cuts)

include h

theorem offset (hcut : ∀ i < n, cuts i ≠ none) :
    offsetAt cuts n = 0 ∨ offsetAt cuts n < content.length := by
  cases n with
  | zero => exact .inl rfl
  | succ n =>
    obtain ⟨k, hk⟩ := Option.ne_none_iff_exists'.mp (hcut n (by omega))
    have := (h.inside n k hk).2
    rw [offsetAt, hk]
    exact .inr this

theorem answer (hlength : content.length < 2 ^ 63) (hcut : ∀ i < n, cuts i ≠ none) :
    peer n (blobRequest digest (offsetAt cuts n)) =
      interrupted (cuts n) (.response (if 0 < offsetAt cuts n then 206 else 200)
        (content.drop (offsetAt cuts n)) .complete) := by
  obtain ⟨stored, hstored, hserved⟩ := h.served
  have hdigest : isDigest digest = true := h.hashed ▸ sha.isDigest_sum content
  rw [hserved, handleBlob_rest hdigest hstored hlength (h.offset hcut)]

end Honest

theorem streamBlob_expected (offset : Nat) (limit : Int) (body : Bytes) (ending : Ending) :
    streamBlob offset limit (.response (if 0 < offset then 206 else 200) body ending) =
      copyLimited limit body ending := by
  rw [streamBlob]
  split_ifs <;> first | rfl | omega

theorem copyLimited_within (hlimit : limit + 1 < 2 ^ 63) {body : Bytes}
    (hbody : (body.length : Int) ≤ limit) (ending : Ending) :
    copyLimited limit body ending = (body, if ending = .broken then some .read else none) := by
  have hwrap : wrap64 (limit + 1) = limit + 1 := wrap64_eq (by omega) hlimit
  have htake : body.take (limit + 1).toNat = body := List.take_of_length_le (by omega)
  simp only [copyLimited, hwrap, htake]
  cases ending with
  | complete =>
    rw [if_neg (by simp), if_neg (by omega)]
    rfl
  | broken => rw [if_pos ⟨rfl, by omega⟩, if_pos rfl]

/-- The spool before the `n`-th request: the first bytes of the blob, none of them twice. -/
structure Resumed (content : Bytes) (cuts : Nat → Option Nat) (n : Nat) (spool : Spool) :
    Prop where
  bytes : spool.bytes = content.take (offsetAt cuts n)
  asked : spool.asked.length = n

namespace Honest

variable {sha : Sha256} {peer : Peer} {digest : String} {size : Int} {content : Bytes}
  {cuts : Nat → Option Nat} {limit : Int} {n : Nat} {spool : Spool}

section

variable (h : Honest sha peer digest size content cuts) (hcut : ∀ i < n, cuts i ≠ none)
  (hspool : Resumed content cuts n spool)

include h hcut hspool

theorem spooled : spool.bytes.length = offsetAt cuts n := by
  have := h.offset hcut
  rw [hspool.bytes, List.length_take]
  omega

theorem attempt_eq (hlength : (content.length : Int) ≤ limit) (hlimit : limit + 1 < 2 ^ 63) :
    attempt peer digest limit spool =
      ((content.drop (offsetAt cuts n)).take ((cuts n).getD content.length),
        if cuts n = none then none else some .read) := by
  have hoffset := h.offset hcut
  have hrest : ((content.drop (offsetAt cuts n)).length : Int) ≤ limit - offsetAt cuts n := by
    rw [List.length_drop]
    omega
  rw [attempt, h.spooled hcut hspool, hspool.asked, h.answer (by omega) hcut,
    wrap64_eq (by omega) (by omega)]
  cases hk : cuts n with
  | none =>
    rw [interrupted_none, streamBlob_expected, copyLimited_within (by omega) hrest]
    simp [List.take_of_length_le]
  | some k =>
    have htaken : (((content.drop (offsetAt cuts n)).take k).length : Int) ≤
        limit - offsetAt cuts n := by
      rw [List.length_take]
      omega
    rw [interrupted, streamBlob_expected, copyLimited_within (by omega) htaken]
    simp

end

theorem resumed_next (hspool : Resumed content cuts n spool) {k : Nat} (hk : cuts n = some k) :
    Resumed content cuts (n + 1)
      (spool.extended digest ((content.drop (offsetAt cuts n)).take k)) := by
  constructor
  · rw [Spool.extended, hspool.bytes, offsetAt, hk, Option.getD_some, List.take_add]
  · simp [Spool.extended, hspool.asked]

variable (h : Honest sha peer digest size content cuts)

include h

theorem attempts_complete (hlength : (content.length : Int) ≤ limit) (hlimit : limit + 1 < 2 ^ 63)
    (left : Nat) (last : Option TransferFault) (hcut : ∀ i < n, cuts i ≠ none)
    (hspool : Resumed content cuts n spool) (hopen : ∃ m, n ≤ m ∧ m < n + left ∧ cuts m = none) :
    ∃ full, attempts peer digest limit left spool last = (full, none) ∧ full.bytes = content := by
  induction left generalizing n spool last with
  | zero =>
    obtain ⟨m, hm, hless, -⟩ := hopen
    omega
  | succ left ih =>
    have hoffset := h.offset hcut
    have hwithin : ¬ limit < spool.bytes.length := by
      rw [h.spooled hcut hspool]
      omega
    rw [attempts, if_neg hwithin, h.attempt_eq hcut hspool hlength hlimit]
    cases hk : cuts n with
    | none =>
      have hall : (content.drop (offsetAt cuts n)).take content.length =
          content.drop (offsetAt cuts n) := List.take_of_length_le (by simp)
      refine ⟨_, rfl, ?_⟩
      simp only [Spool.extended, hspool.bytes, Option.getD_none, hall, List.take_append_drop]
    | some k =>
      have hinside := h.inside n k hk
      have hsome : (content.drop (offsetAt cuts n)).take k ≠ [] := by
        rw [← List.length_pos_iff, List.length_take, List.length_drop]
        omega
      simp only [Option.getD_some, reduceCtorEq, if_false, hsome, or_self]
      apply ih (n := n + 1)
      · intro i hi
        rcases Nat.lt_succ_iff_lt_or_eq.mp hi with hi | rfl
        · exact hcut i hi
        · rw [hk]
          exact Option.some_ne_none k
      · exact resumed_next hspool hk
      · obtain ⟨m, hm, hless, hnone⟩ := hopen
        have hne : m ≠ n := by
          rintro rfl
          rw [hk] at hnone
          cases hnone
        exact ⟨m, by omega, by omega, hnone⟩

/-- A blob that fits the declared size fits the limit, when that did not overflow. -/
theorem length_le_limit (hsize : size ≤ 2 ^ 63 - 2 ^ 20 - 2) :
    (content.length : Int) ≤ limitFor size ∧ limitFor size + 1 < 2 ^ 63 := by
  have hsized := h.sized
  rw [maxUnsizedBlob] at hsized
  rw [limitFor, maxUnsizedBlob]
  split
  · constructor <;> omega
  · rw [wrap64_eq (by omega) (by omega)]
    constructor <;> omega

theorem fetched (hsize : size ≤ 2 ^ 63 - 2 ^ 20 - 2) :
    (fetchBlob sha.sum peer digest size).error = none ∧
      (fetchBlob sha.sum peer digest size).put =
        some ⟨blobKey digest, content, { sha256 := digest, size := content.length }⟩ := by
  obtain ⟨hlength, hlimit⟩ := h.length_le_limit hsize
  obtain ⟨m, hm, hnone⟩ := h.uncut
  have hstart : Resumed content cuts 0 ⟨[], []⟩ := ⟨rfl, rfl⟩
  obtain ⟨⟨bytes, asked⟩, hfull, rfl⟩ := h.attempts_complete hlength hlimit 3 none
    (fun i hi => absurd hi (Nat.not_lt_zero i)) hstart ⟨m, Nat.zero_le m, by omega, hnone⟩
  have hsized : ¬ (0 < size ∧ (bytes.length : Int) ≠ size) := by
    rcases h.sized with hexact | ⟨hnone, -⟩
    · exact fun hne => hne.2 hexact.symm
    · exact fun hne => absurd hne.1 (by omega)
  simp only [fetchBlob, hfull, h.hashed, ne_eq, not_true, if_false, hsized, and_self]

end Honest

/-! ## A size whose limit overflows is never transferred -/

theorem attempt_wrapped (peer : Peer) (digest : String) :
    (attempt peer digest (2 ^ 63 - 1) ⟨[], []⟩).1 = [] := by
  have hbytes := streamBlob_bytes 0 (wrap64 (2 ^ 63 - 1)) (peer 0 (blobRequest digest 0))
  rw [show (wrap64 (wrap64 (2 ^ 63 - 1) + 1)).toNat = 0 by decide] at hbytes
  exact List.length_eq_zero_iff.mp (by simpa [attempt] using hbytes)

theorem attempts_overflow (peer : Peer) (digest : String) {size : Int64}
    (hsize : 2 ^ 63 - 2 ^ 20 - 2 < size.toInt) :
    (attempts peer digest (limitFor size.toInt) 3 ⟨[], []⟩ none).1.bytes = [] := by
  have hrange := size.toInt_lt
  have hpositive : ¬ size.toInt ≤ 0 := by omega
  rw [limitFor, if_neg hpositive]
  by_cases hedge : size.toInt = 2 ^ 63 - 2 ^ 20 - 1
  · rw [hedge, show wrap64 (2 ^ 63 - 2 ^ 20 - 1 + 2 ^ 20) = 2 ^ 63 - 1 by decide, attempts,
      if_neg (by simp)]
    have hnothing := attempt_wrapped peer digest
    split
    · rename_i got hattempt
      rw [hattempt] at hnothing
      simpa [Spool.extended] using hnothing
    · rename_i got fault hattempt
      rw [hattempt] at hnothing
      rw [if_pos (.inr hnothing)]
      simpa [Spool.extended] using hnothing
  · have hnegative : wrap64 (size.toInt + 2 ^ 20) < 0 := by
      rw [wrap64, Int.bmod]
      split <;> omega
    rw [attempts, if_pos (by simpa using hnegative)]

theorem fetchBlob_overflow (hash : Bytes → String) (peer : Peer) (digest : String) {size : Int64}
    (hsize : 2 ^ 63 - 2 ^ 20 - 2 < size.toInt) :
    (fetchBlob hash peer digest size.toInt).put = none := by
  cases hput : (fetchBlob hash peer digest size.toInt).put with
  | none => rfl
  | some call =>
    obtain ⟨-, -, hlength⟩ := fetchBlob_put hput
    rw [fetchBlob_spool, attempts_overflow peer digest hsize] at hlength
    have := hlength (by omega)
    simp only [List.length_nil] at this
    omega

/-! ## The transfer as a whole -/

/-- What a transfer promises against any peer, and what it achieves with an honest one. -/
structure Transferred (sha : Sha256) (peer : Peer) (digest : String) (size : Int) : Prop where
  /-- Only spooled bytes with the digest, as many as declared, reach the store. -/
  checked : ∀ call, (fetchBlob sha.sum peer digest size).put = some call →
    call.key = blobKey digest ∧
      call.content = (fetchBlob sha.sum peer digest size).spool.bytes ∧
      sha.sum call.content = digest ∧ (0 < size → (call.content.length : Int) = size)
  bounded : ((fetchBlob sha.sum peer digest size).spool.bytes.length : Int) ≤
    (if 0 < size then size + 2 ^ 20 else 2 ^ 33) + 1
  asked : (fetchBlob sha.sum peer digest size).spool.asked.length ≤ 3
  /-- An honest peer's blob arrives, cut at most twice or not. -/
  arrives : ∀ content cuts, Honest sha peer digest size content cuts →
    (fetchBlob sha.sum peer digest size).error = none ∧
      (fetchBlob sha.sum peer digest size).put =
        some ⟨blobKey digest, content, { sha256 := digest, size := content.length }⟩

theorem limitFor_le (size : Int64) :
    limitFor size.toInt ≤ if 0 < size.toInt then size.toInt + 2 ^ 20 else 2 ^ 33 := by
  have hrange := size.toInt_lt
  rw [limitFor, maxUnsizedBlob]
  split_ifs with hnone hsome
  · omega
  · exact le_refl _
  · rw [wrap64, Int.bmod]
    split <;> omega
  · omega

/-- A transfer keeps its promises, except that an honest peer's blob arrives only while the
limit computed from its size does not overflow. -/
theorem transferred_iff (sha : Sha256) (peer : Peer) (digest : String) (size : Int64) :
    Transferred sha peer digest size.toInt ↔
      (size.toInt ≤ 2 ^ 63 - 2 ^ 20 - 2 ∨
        ¬ ∃ content cuts, Honest sha peer digest size.toInt content cuts) := by
  constructor
  · intro h
    by_contra hcond
    rw [not_or, not_le, not_not] at hcond
    obtain ⟨hsize, content, cuts, hhonest⟩ := hcond
    have harrived := (h.arrives content cuts hhonest).2
    rw [fetchBlob_overflow _ _ _ hsize] at harrived
    cases harrived
  · intro hcond
    have hspool : Spooling (limitFor size.toInt) 3 ⟨[], []⟩ := ⟨by simp, by simp⟩
    have hrun := attempts_spooling (limitFor_lt size) peer digest 3 _ none hspool
    rw [← fetchBlob_spool sha.sum] at hrun
    constructor
    · intro call hput
      obtain ⟨rfl, hhash, hlength⟩ := fetchBlob_put hput
      exact ⟨rfl, rfl, hhash, hlength⟩
    · have hbounded := hrun.bounded
      have hlimit := limitFor_le size
      split_ifs at hlimit ⊢ <;> omega
    · exact hrun.asked
    · intro content cuts hhonest
      rcases hcond with hsize | hnone
      · exact hhonest.fetched hsize
      · exact absurd ⟨content, cuts, hhonest⟩ hnone

def zeroSum : Sha256 :=
  ⟨fun _ => "0000000000000000000000000000000000000000000000000000000000000000", fun _ => by decide⟩

def steadyPeer (content : Bytes) : Peer :=
  fun _ request => handleBlob (fun _ => some content) request

/-- The largest declared size: the limit wraps around below zero and the transfer gives up before
its first request, although the peer holds the blob. -/
theorem largest_blob_not_transferred :
    ¬ Transferred zeroSum (steadyPeer (List.replicate (2 ^ 63 - 1) 0)) (zeroSum.sum [])
      Int64.maxValue.toInt := by
  intro h
  have hsize : Int64.maxValue.toInt = 2 ^ 63 - 1 := by decide
  have hhonest : Honest zeroSum (steadyPeer (List.replicate (2 ^ 63 - 1) 0)) (zeroSum.sum [])
      Int64.maxValue.toInt (List.replicate (2 ^ 63 - 1) 0) (fun _ => none) := by
    refine ⟨⟨_, rfl, fun n request => (interrupted_none _).symm⟩, rfl, .inl ?_, ?_,
      ⟨0, by omega, rfl⟩⟩
    · rw [List.length_replicate, hsize]
      rfl
    · intro n k hk
      cases hk
  have harrived := (h.arrives _ _ hhonest).2
  rw [fetchBlob_overflow _ _ _ (by rw [hsize]; omega)] at harrived
  cases harrived

end FondacoFormal.Repl.Transfer
