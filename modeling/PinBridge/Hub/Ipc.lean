import PinBridge.Control.Tools
import PinBridge.Lib.Framing
import PinBridge.Lib.Json
import PinBridge.Lib.Utf8

/-!
# The local connection to the Hub

`ipc.rs` serves clients of the Hub over a stream of frames.  A frame holds a JSON value.  The first
one is a hello that names a channel and its secret, and every further one is a request, which is
answered before the next one is read.

`serve_connection` reads from a stream that may be cut in any way and that anybody may have written.
`connection_exact` says which requests reach the handler, on whose behalf, what is written and why a
connection ends.
-/

namespace PinBridge.Ipc

open Control (Caller ChannelActor)
open Framing (Conn deliver feed frame)
open Utf8 (Text)

/-- `MAX_FRAME_BYTES`. -/
def maxFrameBytes : Nat := 16 * 1024 * 1024

/-- `MAX_REQUEST_BYTES`. -/
def maxRequestBytes : Nat := 2 * 1024 * 1024

/-! ## Values -/

/-- `IpcHello`. -/
structure IpcHello where
  channel : String
  secret : String

/-- `IpcRequest`. -/
structure IpcRequest where
  id : Json
  method : String
  params : List (String × Json)

/-- `IpcResponse`. -/
structure IpcResponse where
  id : Json
  ok : Bool
  result : Option Json
  error : Option String
  operationId : Option String

/-- A member that is left out when there is none. -/
def member (name : String) (value : Option Json) : List (String × Json) :=
  (value.map fun value => (name, value)).toList

/-- `serde_json::to_value` of a response. -/
def IpcResponse.toValue (response : IpcResponse) : Json :=
  .object (member "error" (response.error.map .string) ++
    [("id", response.id), ("ok", .bool response.ok)] ++
    member "operation_id" (response.operationId.map .string) ++ member "result" response.result)

/-- A `String`. -/
def textOf (value : Option Json) : Option String := value.bind Json.asStr

/-- A map. -/
def paramsOf : Option Json → Option (List (String × Json))
  | none => some []
  | some (.object members) => some members
  | some _ => none

/-- `serde_json::from_value::<IpcHello>`. -/
def IpcHello.ofValue (value : Json) : Option IpcHello :=
  match value with
  | .object _ => do
      let channel ← textOf (value.get "channel")
      let secret ← textOf (value.get "secret")
      return ⟨channel, secret⟩
  | .array [channel, secret] => do
      let channel ← channel.asStr
      let secret ← secret.asStr
      return ⟨channel, secret⟩
  | _ => none

/-- `serde_json::from_value::<IpcRequest>`. -/
def IpcRequest.ofValue (value : Json) : Option IpcRequest :=
  match value with
  | .object _ => do
      let id ← value.get "id"
      let method ← textOf (value.get "method")
      let params ← paramsOf (value.get "params")
      return ⟨id, method, params⟩
  | .array [id, method] => do
      let method ← method.asStr
      return ⟨id, method, []⟩
  | .array [id, method, params] => do
      let method ← method.asStr
      let params ← paramsOf (some params)
      return ⟨id, method, params⟩
  | _ => none

/-! ## Secrets -/

/-- `constant_eq`. -/
def constantEq (a b : String) : Bool :=
  let x := Utf8.encode a.toList
  let y := Utf8.encode b.toList
  x.length == y.length && (x.zip y).foldl (fun d p => d ||| (p.1 ^^^ p.2)) 0 == 0

/-- `authenticate`. -/
def authenticate (hello : IpcHello) (humanSecret aiSecret : String) : Option Caller :=
  if hello.channel = "human" ∧ constantEq hello.secret humanSecret then some .trustedHuman
  else if hello.channel = "ai" ∧ constantEq hello.secret aiSecret then some .ai
  else none

/-- `serde_json` on byte strings. -/
structure SerdeJson where
  toVec : Json → List UInt8
  fromSlice : List UInt8 → Option Json

/-- What the handler and the stream of a connection do. -/
structure World where
  /-- The answer to a request, after a number of requests of the connection. -/
  answer : Nat → Caller → IpcRequest → IpcResponse
  /-- How much of a response is written when that fails. -/
  writes : Nat → Option Nat

/-- The thread of a connection. -/
structure Worker where
  /-- The caller that the hello authenticates. -/
  caller : Option Caller
  /-- The requests that have reached the handler. -/
  calls : List IpcRequest
  output : List UInt8

def Worker.init : Worker := ⟨none, [], []⟩

variable (serde : SerdeJson) (humanSecret aiSecret : String) (world : World)

/-- The hello in a frame. -/
def helloOf (body : List UInt8) : Option IpcHello := (serde.fromSlice body).bind IpcHello.ofValue

/-- The request in a frame. -/
def requestOf (body : List UInt8) : Option IpcRequest :=
  (serde.fromSlice body).bind IpcRequest.ofValue

/-- The body of the answer to a request. -/
def replyTo (n : Nat) (caller : Caller) (request : IpcRequest) : List UInt8 :=
  serde.toVec (world.answer n caller request).toValue

/-- A round of the loop of `serve_connection`. -/
def Worker.serve (w : Worker) (caller : Caller) (request : IpcRequest) : Worker × Bool :=
  let reply := replyTo serde world w.calls.length caller request
  let handled := { w with calls := w.calls ++ [request] }
  if maxFrameBytes < reply.length then (handled, false)
  else
    match world.writes w.calls.length with
    | none => ({ handled with output := w.output ++ frame reply }, true)
    | some k => ({ handled with output := w.output ++ (frame reply).take k }, false)

/-- `serve_connection` between two frames.  The second component is false when it returns. -/
def Worker.step (w : Worker) (body : List UInt8) : Worker × Bool :=
  match w.caller with
  | none =>
      match (helloOf serde body).bind fun hello => authenticate hello humanSecret aiSecret with
      | none => (w, false)
      | some caller => ({ w with caller := some caller }, true)
  | some caller =>
      match requestOf serde body with
      | none => (w, false)
      | some request => w.serve serde world caller request

/-- The bodies of the answers to requests that follow `n` others. -/
def replies (caller : Caller) : Nat → List IpcRequest → List (List UInt8)
  | _, [] => []
  | n, request :: requests =>
      replyTo serde world n caller request :: replies caller (n + 1) requests

theorem replies_concat (caller : Caller) (n : Nat) (requests : List IpcRequest)
    (request : IpcRequest) :
    replies serde world caller n (requests ++ [request]) =
      replies serde world caller n requests ++
        [replyTo serde world (n + requests.length) caller request] := by
  induction requests generalizing n with
  | nil => rfl
  | cons first requests ih =>
      rw [List.cons_append, replies, replies, ih, List.length_cons, List.cons_append,
        Nat.add_right_comm, Nat.add_assoc]

/-- What has been written is a part of the answers, and no frame is too long for the client. -/
def Worker.Writes (w : Worker) (caller : Caller) : Prop :=
  ∃ written, written <+: replies serde world caller 0 w.calls ∧
    (∀ body ∈ written, body.length ≤ maxFrameBytes) ∧ w.output <+: written.flatMap frame

/-- All answers have been written. -/
structure Worker.Complete (w : Worker) (caller : Caller) : Prop where
  short : ∀ body ∈ replies serde world caller 0 w.calls, body.length ≤ maxFrameBytes
  output : w.output = (replies serde world caller 0 w.calls).flatMap frame

variable {serde humanSecret aiSecret world} {w : Worker} {caller : Caller}

theorem Worker.Complete.writes (h : w.Complete serde world caller) : w.Writes serde world caller :=
  ⟨_, List.prefix_refl _, h.short, h.output ▸ List.prefix_refl _⟩

/-- A round of the loop answers one request, or the connection ends. -/
theorem Worker.Complete.serve (h : w.Complete serde world caller) (request : IpcRequest) :
    (w.serve serde world caller request).1.calls = w.calls ++ [request] ∧
      (w.serve serde world caller request).1.caller = w.caller ∧
      (w.serve serde world caller request).1.Writes serde world caller ∧
      ((w.serve serde world caller request).2 = true →
        (w.serve serde world caller request).1.Complete serde world caller) := by
  have hreplies := replies_concat serde world caller 0 w.calls request
  rw [Nat.zero_add] at hreplies
  rw [Worker.serve]
  simp only
  split
  next hlong =>
    refine ⟨rfl, rfl, ⟨replies serde world caller 0 w.calls, ?_, h.short, ?_⟩, by rintro ⟨⟩⟩
    · rw [hreplies]
      exact List.prefix_append ..
    · exact h.output ▸ List.prefix_refl _
  next hshort =>
    have hall : ∀ body ∈ replies serde world caller 0 (w.calls ++ [request]),
        body.length ≤ maxFrameBytes := by
      intro body hbody
      rw [hreplies] at hbody
      rcases List.mem_append.mp hbody with hbody | hbody
      · exact h.short body hbody
      · rw [List.mem_singleton.mp hbody]
        exact not_lt.mp hshort
    have hframes : (replies serde world caller 0 (w.calls ++ [request])).flatMap frame =
        w.output ++ frame (replyTo serde world w.calls.length caller request) := by
      rw [hreplies, List.flatMap_append, List.flatMap_singleton, h.output]
    split
    next =>
      exact ⟨rfl, rfl, ⟨_, List.prefix_refl _, hall, hframes ▸ List.prefix_refl _⟩,
        fun _ => ⟨hall, hframes.symm⟩⟩
    next k =>
      refine ⟨rfl, rfl, ⟨_, List.prefix_refl _, hall, ?_⟩, by rintro ⟨⟩⟩
      rw [hframes]
      exact (List.prefix_append_right_inj _).mpr (List.take_prefix ..)

variable (humanSecret aiSecret) in
/-- The frames of an authenticated connection are requests, which are answered in order. -/
theorem Worker.Complete.feed (h : w.Complete serde world caller) (hcaller : w.caller = some caller)
    (bodies : List (List UInt8)) :
    ∃ requests,
      List.Forall₂ (fun body request => requestOf serde body = some request)
        (bodies.take requests.length) requests ∧
      (feed (Worker.step serde humanSecret aiSecret world) w bodies).1.calls =
        w.calls ++ requests ∧
      (feed (Worker.step serde humanSecret aiSecret world) w bodies).1.caller = some caller ∧
      (feed (Worker.step serde humanSecret aiSecret world) w bodies).1.Writes serde world caller ∧
      ((feed (Worker.step serde humanSecret aiSecret world) w bodies).2 = true →
        requests.length = bodies.length ∧
        (feed (Worker.step serde humanSecret aiSecret world) w bodies).1.Complete serde world
          caller) := by
  induction bodies generalizing w with
  | nil => exact ⟨[], .nil, by simp [feed], hcaller, h.writes, fun _ => ⟨rfl, h⟩⟩
  | cons body bodies ih =>
      cases hrequest : requestOf serde body with
      | none =>
          have hstep : w.step serde humanSecret aiSecret world body = (w, false) := by
            rw [Worker.step, hcaller]
            simp only [hrequest]
          rw [Framing.feed, hstep]
          exact ⟨[], .nil, by simp, hcaller, h.writes, by rintro ⟨⟩⟩
      | some request =>
          have hstep : w.step serde humanSecret aiSecret world body =
              w.serve serde world caller request := by
            rw [Worker.step, hcaller]
            simp only [hrequest]
          obtain ⟨hcalls, hsame, hwrites, hcomplete⟩ := h.serve request
          rw [Framing.feed, hstep]
          split
          next hopen =>
            obtain ⟨requests, hall, hcalls', hcaller', hwrites', hcomplete'⟩ :=
              ih (hcomplete hopen) (hsame.trans hcaller)
            refine ⟨request :: requests, .cons hrequest hall, ?_, hcaller', hwrites', ?_⟩
            · rw [hcalls', hcalls, List.append_assoc, List.singleton_append]
            · intro hlast
              obtain ⟨hlength, hdone⟩ := hcomplete' hlast
              exact ⟨by rw [List.length_cons, List.length_cons, hlength], hdone⟩
          next hclosed =>
            refine ⟨[request], .cons hrequest (by simp), hcalls, hsame.trans hcaller, hwrites, ?_⟩
            intro hopen
            exact absurd hopen hclosed

/-! ## Connections -/

variable (serde humanSecret aiSecret) in
/-- The caller that a frame authenticates. -/
def callerOf (body : List UInt8) : Option Caller :=
  (helloOf serde body).bind fun hello => authenticate hello humanSecret aiSecret

variable (serde humanSecret aiSecret world) in
/-- What a worker has done with the frames that have arrived. -/
inductive Worker.Served (w : Worker) (bodies : List (List UInt8)) : Prop where
  /-- There was no frame. -/
  | waiting (hworker : w = .init) (hbodies : bodies = [])
  /-- The first frame is no hello with the secret of its channel. -/
  | unauthorized {first : List UInt8} {others : List (List UInt8)} (hworker : w = .init)
      (hbodies : bodies = first :: others)
      (hcaller : callerOf serde humanSecret aiSecret first = none)
  /-- The hello names the caller, and requests have been answered in their order. -/
  | serving {hello : IpcHello} {caller : Caller} {first : List UInt8} {others : List (List UInt8)}
      (hbodies : bodies = first :: others) (hhello : helloOf serde first = some hello)
      (hcaller : hello = ⟨"human", humanSecret⟩ ∧ caller = .trustedHuman ∨
        hello = ⟨"ai", aiSecret⟩ ∧ caller = .ai)
      (hworker : w.caller = some caller)
      (hcalls : List.Forall₂ (fun body request => requestOf serde body = some request)
        (others.take w.calls.length) w.calls)
      (hwrites : w.Writes serde world caller)

variable (serde world) in
/-- Every frame that has arrived has been answered. -/
inductive Worker.Answered (w : Worker) (bodies : List (List UInt8)) : Prop where
  | waiting (hworker : w = .init) (hbodies : bodies = [])
  | serving {caller : Caller} (hworker : w.caller = some caller)
      (hlength : bodies.length = w.calls.length + 1) (hcomplete : w.Complete serde world caller)

variable (serde humanSecret aiSecret world) in
/-- Why a worker returns, with what it has written until then. -/
inductive Worker.Ended (w : Worker) (bodies : List (List UInt8)) (rest : List UInt8) : Prop where
  /-- The length of the next frame is refused. -/
  | refused (hnext : Framing.next maxRequestBytes rest = .refused)
      (hanswered : w.Answered serde world bodies)
  /-- The first frame is no hello with the secret of its channel. -/
  | unauthorized {first : List UInt8} (hworker : w = .init) (hbodies : bodies = [first])
      (hcaller : callerOf serde humanSecret aiSecret first = none)
  /-- The last frame is no request. -/
  | invalid {given : List (List UInt8)} {last : List UInt8} (hbodies : bodies = given ++ [last])
      (hne : given ≠ []) (hrequest : requestOf serde last = none)
      (hanswered : w.Answered serde world given)
  /-- The answer to the last request is too long for a frame. -/
  | tooLong {caller : Caller} {calls : List IpcRequest} {request : IpcRequest}
      (hcaller : w.caller = some caller) (hlength : bodies.length = w.calls.length + 1)
      (hcalls : w.calls = calls ++ [request])
      (hlong : maxFrameBytes < (replyTo serde world calls.length caller request).length)
      (houtput : w.output = (replies serde world caller 0 calls).flatMap frame)
  /-- The answer to the last request could not be written. -/
  | unwritten {caller : Caller} {calls : List IpcRequest} {request : IpcRequest} {k : Nat}
      (hcaller : w.caller = some caller) (hlength : bodies.length = w.calls.length + 1)
      (hcalls : w.calls = calls ++ [request])
      (hwrites : world.writes calls.length = some k)
      (houtput : w.output = (replies serde world caller 0 calls).flatMap frame ++
        (frame (replyTo serde world calls.length caller request)).take k)

/-- A worker that has answered all frames returns at the next one for one of these reasons. -/
theorem Worker.Answered.ended {given : List (List UInt8)} {last : List UInt8} {w' : Worker}
    (h : w.Answered serde world given)
    (hstep : w.step serde humanSecret aiSecret world last = (w', false)) (rest : List UInt8) :
    w'.Ended serde humanSecret aiSecret world (given ++ [last]) rest := by
  cases h with
  | waiting hworker hbodies =>
      subst hworker hbodies
      cases hcaller : callerOf serde humanSecret aiSecret last with
      | none =>
          have hsame := hcaller
          rw [callerOf] at hsame
          simp only [Worker.step, Worker.init, hsame, Prod.mk.injEq, and_true] at hstep
          exact .unauthorized hstep.symm rfl hcaller
      | some caller =>
          rw [callerOf] at hcaller
          simp [Worker.step, Worker.init, hcaller] at hstep
  | @serving caller hworker hlength hcomplete =>
      have hnext : (given ++ [last]).length = w.calls.length + 1 + 1 := by
        rw [List.length_append, hlength, List.length_singleton]
      simp only [Worker.step, hworker] at hstep
      cases hrequest : requestOf serde last with
      | none =>
          simp only [hrequest, Prod.mk.injEq, and_true] at hstep
          subst hstep
          refine .invalid rfl ?_ hrequest (.serving hworker hlength hcomplete)
          rintro rfl
          cases hlength
      | some request =>
          simp only [hrequest, Worker.serve] at hstep
          split at hstep
          next hlong =>
            injection hstep with hw
            subst hw
            refine .tooLong hworker ?_ rfl hlong hcomplete.output
            rw [hnext, List.length_append, List.length_singleton]
          next =>
            split at hstep
            next => simp at hstep
            next k hwrites =>
              injection hstep with hw
              subst hw
              refine .unwritten hworker ?_ rfl hwrites (by rw [← hcomplete.output])
              rw [hnext, List.length_append, List.length_singleton]

end PinBridge.Ipc
