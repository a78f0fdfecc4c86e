import Citop.Go

/-!
The Pusher client of the `utils` package: the websocket client through which `citop` follows
a CI provider's events, and the channels it subscribes to.

The websocket, the HTTP client and `encoding/json` are not part of the sources. What a call
reads from them is an argument of the call: what `conn.Read` returns, whether `conn.Write` or
`conn.Close` fails, whether the authentication request can be built and what the server
answers. The JSON decoder is one fixed function, so it is a parameter of the whole model
(`Json`). What the client does on the connection is returned beside its result (`Effect`):
the messages it writes, the authentication requests it posts, and the closing of the socket.

* `unmarshalPayload`: `UnmarshalPayload`, a payload sent as an object or as a string that holds
  one.
* `PusherClient`, `newPusherClient`: the client's state, as `NewPusherClient` makes it.
* `PusherClient.handle`, `nextEvent`, `expect`: the reading side. `handle` is the switch of
  `NextEvent` on the event it has read, and `reply` the cases of it that leave the client as it
  is.
* `PusherClient.authenticate`, `subscribe`, `unsubscribe`, `close`: the writing side, each over
  `send`.
* `Call`, `PusherClient.step`, `PusherClient.run`: a session, one call after another, with the
  effects of all calls in order.

Each method has its small lemmas beside it: what it does to the fields of the client, the
effects it has, and, for `NextEvent`, `Subscribe` and `Unsubscribe`, that a call returning an
error leaves the client as it was. `Citop.Pusher.Session` proves what holds over whole sessions from these alone.
-/

namespace Citop.Pusher

/-- `[]byte`. -/
abbrev Bytes := List UInt8

/-- `strings.HasPrefix`. -/
def hasPrefix (s pre : String) : Bool := decide (pre.data <+: s.data)

/-! ### Events and payloads -/

def connectionEstablished : String := "pusher:connection_established"
def error : String := "pusher:error"
def subscribe : String := "pusher:subscribe"
def unsubscribe : String := "pusher:unsubscribe"
def subscriptionSucceeded : String := "pusher_internal:subscription_succeeded"
def publicSubscriptionSucceeded : String := "pusher:subscription_succeeded"
def ping : String := "pusher:ping"
def pong : String := "pusher:pong"
def memberAdded : String := "pusher_internal:member_added"
def memberRemoved : String := "pusher_internal:member_removed"

structure ConnectionEstablishedPayload where
  socketId : String
  activityTimeout : Int
  deriving DecidableEq, Repr

structure ErrorPayload where
  message : String
  code : Int
  deriving DecidableEq, Repr

structure SubscribePayload where
  channel : String
  auth : String := ""
  channelData : String := ""
  deriving DecidableEq, Repr

structure PusherEvent where
  event : String
  channel : String := ""
  data : Bytes
  deriving DecidableEq, Repr

/-- What `NextEvent` returns when the read fails: the zero `PusherEvent`. -/
def PusherEvent.zero : PusherEvent := ⟨"", "", []⟩

/-- The calls the client makes to `json.Unmarshal`, one per type it decodes into. -/
structure Json where
  unmarshalEvent : Bytes → Except GoError PusherEvent
  unmarshalConnectionEstablished : Bytes → Except GoError ConnectionEstablishedPayload
  unmarshalError : Bytes → Except GoError ErrorPayload
  unmarshalString : Bytes → Except GoError String
  /-- The answer of the authentication server, `struct{ Channels map[string]string }`. -/
  unmarshalChannels : Bytes → Except GoError (GoMap String String)

/-- `UnmarshalPayload(data, v)`: `data` is decoded as `v` directly, and if that fails, as a
string whose bytes are then decoded as `v`. -/
def unmarshalPayload {α : Type} (unmarshalString : Bytes → Except GoError String)
    (unmarshal : Bytes → Except GoError α) (data : Bytes) : Except GoError α :=
  match unmarshal data with
  | .ok v => .ok v
  | .error _ =>
      match unmarshalString data with
      | .error err => .error err
      | .ok s => unmarshal s.toUTF8.toList

/-- A payload that decodes directly is taken as it is. -/
lemma unmarshalPayload_of_ok {α : Type} {unmarshalString : Bytes → Except GoError String}
    {unmarshal : Bytes → Except GoError α} {data : Bytes} {v : α} (h : unmarshal data = .ok v) :
    unmarshalPayload unmarshalString unmarshal data = .ok v := by
  simp [unmarshalPayload, h]

/-! ### What the client does on the connection -/

/-- The payload `send` marshals into the event's `Data`: a `SubscribePayload` (also the one
`Unsubscribe` sends), or a string. -/
inductive Payload where
  | subscribe (p : SubscribePayload)
  | string (s : String)
  deriving DecidableEq, Repr

/-- The event `send` writes. -/
structure Message where
  event : String
  channel : String
  payload : Payload
  deriving DecidableEq, Repr

/-- The request `Authenticate` posts to `authUrl`, with the client's headers; its body is the
socket ID and the channels. -/
structure AuthRequest where
  url : String
  socketID : String
  channels : List String
  deriving DecidableEq, Repr

/-- What the HTTP client returns: the status code, and reading the body. -/
structure HttpResponse where
  statusCode : Int
  body : Except GoError Bytes

inductive Effect where
  | write (m : Message)
  | post (r : AuthRequest)
  | close
  deriving DecidableEq, Repr

/-- The answer to a ping. -/
def pongMessage : Message := ⟨pong, "", .string "\x7b\x7d"⟩

/-- The error a write or a close returns. -/
def errorOf : Except GoError Unit → Option GoError
  | .ok () => none
  | .error err => some err

/-- `send(ctx, eventType, channel, payload)`: `json.Marshal` cannot fail on the payloads the
client sends, so the message is written and the write's error returned. -/
def send (eventType channel : String) (payload : Payload) (write : Except GoError Unit) :
    Option GoError × List Effect :=
  (errorOf write, [.write ⟨eventType, channel, payload⟩])

/-! ### The client -/

/-- `PusherClient`, without the connection and the HTTP client, which the calls' arguments
stand for. -/
structure PusherClient where
  authUrl : String
  authHeader : GoMap String String
  connected : Bool
  channels : GoMap String Bool
  timeout : Int
  socketID : String

/-- `NewPusherClient`: once the websocket is dialed, a client that is not connected yet and has
no channel. -/
def newPusherClient (authURL : String) (authHeader : GoMap String String)
    (dial : Except GoError Unit) : Except GoError PusherClient :=
  dial.map fun () => ⟨authURL, authHeader, false, ∅, 0, ""⟩

/-- The client after a call, the call's result, and what the call did on the connection. -/
structure Outcome (α : Type) where
  client : PusherClient
  value : α
  effects : List Effect

namespace PusherClient

variable (json : Json)

/-- The cases of the switch of `NextEvent` that leave the client as it is: the error they return
and what they write. -/
def reply (write : Except GoError Unit) (event : PusherEvent) : Option GoError × List Effect :=
  if event.event = ping then send pong "" (.string "\x7b\x7d") write
  else if event.event = memberAdded ∨ event.event = memberRemoved then (none, [])
  else if event.event = error then
    match unmarshalPayload json.unmarshalString json.unmarshalError event.data with
    | .error err => (some err, [])
    | .ok payload =>
        (some (.new ("received error " ++ toString payload.code ++ ": '" ++
          payload.message ++ "'")), [])
  else if hasPrefix event.event "pusher:" || hasPrefix event.event "pusher_internal:" then
    (some (.new ("unhandled event type: '" ++ event.event ++ "'")), [])
  else (none, [])

/-- The only thing these cases write is the answer to a ping. -/
lemma reply_effects (write : Except GoError Unit) (e : PusherEvent) :
    (reply json write e).2 = if e.event = ping then [.write pongMessage] else [] := by
  unfold reply
  by_cases hp : e.event = ping
  · simp only [if_pos hp]; rfl
  · simp only [if_neg hp]
    split_ifs <;> (try split) <;> rfl

/-- The switch of `NextEvent`, on the event it has read. -/
def handle (write : Except GoError Unit) (event : PusherEvent) (p : PusherClient) :
    Outcome (Option GoError) :=
  if event.event = connectionEstablished then
    match unmarshalPayload json.unmarshalString json.unmarshalConnectionEstablished event.data with
    | .error err => ⟨p, some err, []⟩
    | .ok payload =>
        ⟨{ p with
            connected := true, timeout := payload.activityTimeout, socketID := payload.socketId },
          none, []⟩
  else if event.event = subscriptionSucceeded ∨ event.event = publicSubscriptionSucceeded then
    ⟨{ p with channels := p.channels.insert event.channel true }, none, []⟩
  else
    let r := reply json write event
    ⟨p, r.1, r.2⟩

/-- Everything `handle` does to the client: a decodable `connection_established` sets the
connection, and a confirmation marks its channel as subscribed. -/
lemma handle_client (write : Except GoError Unit) (e : PusherEvent) (p : PusherClient) :
    (p.handle json write e).client =
      if e.event = connectionEstablished then
        match unmarshalPayload json.unmarshalString json.unmarshalConnectionEstablished e.data with
        | .ok payload =>
            { p with
              connected := true, timeout := payload.activityTimeout, socketID := payload.socketId }
        | .error _ => p
      else if e.event = subscriptionSucceeded ∨ e.event = publicSubscriptionSucceeded then
        { p with channels := p.channels.insert e.channel true }
      else p := by
  unfold handle
  split_ifs
  · cases unmarshalPayload json.unmarshalString json.unmarshalConnectionEstablished e.data <;> rfl
  all_goals rfl

/-- The only thing `handle` writes is the answer to a ping. -/
lemma handle_effects (write : Except GoError Unit) (e : PusherEvent) (p : PusherClient) :
    (p.handle json write e).effects = if e.event = ping then [.write pongMessage] else [] := by
  unfold handle
  by_cases h1 : e.event = connectionEstablished
  · have hp : ¬e.event = ping := by rw [h1]; decide
    simp only [if_pos h1, if_neg hp]
    cases unmarshalPayload json.unmarshalString json.unmarshalConnectionEstablished e.data <;> rfl
  by_cases h2 : e.event = subscriptionSucceeded ∨ e.event = publicSubscriptionSucceeded
  · have hp : ¬e.event = ping := by rcases h2 with h | h <;> rw [h] <;> decide
    simp only [if_neg h1, if_pos h2, if_neg hp]
  · simp only [if_neg h1, if_neg h2]
    exact reply_effects json write e

/-- When `handle` returns an error, it has left the client as it was. -/
lemma handle_client_of_error (write : Except GoError Unit) (e : PusherEvent) (p : PusherClient)
    (h : (p.handle json write e).value.isSome) : (p.handle json write e).client = p := by
  unfold handle at h ⊢
  split_ifs at h ⊢
  · revert h
    cases unmarshalPayload json.unmarshalString json.unmarshalConnectionEstablished e.data <;>
      intro h
    · rfl
    · exact absurd h Bool.false_ne_true
  · exact absurd h Bool.false_ne_true
  · rfl

/-- `NextEvent`: `readJSON` reads a message and decodes it as an event; when either fails, the
zero event is returned with the error. -/
def nextEvent (read : Except GoError Bytes) (write : Except GoError Unit) (p : PusherClient) :
    Outcome (PusherEvent × Option GoError) :=
  match read.bind json.unmarshalEvent with
  | .error err => ⟨p, (.zero, some err), []⟩
  | .ok event =>
      let o := p.handle json write event
      ⟨o.client, (event, o.value), o.effects⟩

lemma nextEvent_client (read : Except GoError Bytes) (write : Except GoError Unit)
    (p : PusherClient) :
    (p.nextEvent json read write).client =
      match read.bind json.unmarshalEvent with
      | .ok e => (p.handle json write e).client
      | .error _ => p := by
  unfold nextEvent; cases read.bind json.unmarshalEvent <;> rfl

lemma nextEvent_effects (read : Except GoError Bytes) (write : Except GoError Unit)
    (p : PusherClient) :
    (p.nextEvent json read write).effects =
      match read.bind json.unmarshalEvent with
      | .ok e => (p.handle json write e).effects
      | .error _ => [] := by
  unfold nextEvent; cases read.bind json.unmarshalEvent <;> rfl

/-- When `NextEvent` returns an error, it has left the client as it was. -/
lemma nextEvent_client_of_error (read : Except GoError Bytes) (write : Except GoError Unit)
    (p : PusherClient) (h : (p.nextEvent json read write).value.2.isSome) :
    (p.nextEvent json read write).client = p := by
  revert h
  unfold nextEvent
  cases read.bind json.unmarshalEvent with
  | error err => exact fun _ => rfl
  | ok e => exact handle_client_of_error json write e p

/-- `Expect`: `NextEvent`, and an error when it returns an event of another type. -/
def expect (eventType : String) (read : Except GoError Bytes) (write : Except GoError Unit)
    (p : PusherClient) : Outcome (PusherEvent × Option GoError) :=
  let o := p.nextEvent json read write
  match o.value.2 with
  | some _ => o
  | none =>
      if o.value.1.event ≠ eventType then
        { o with value := (o.value.1, some (.new ("expected '" ++ eventType ++
          "' but received '" ++ o.value.1.event ++ "'"))) }
      else o

/-- `Expect` changes the client and the connection as `NextEvent` does, also when it rejects the
event. -/
@[simp] lemma expect_client (eventType : String) (read : Except GoError Bytes)
    (write : Except GoError Unit) (p : PusherClient) :
    (p.expect json eventType read write).client = (p.nextEvent json read write).client := by
  unfold expect; dsimp only; split <;> (try split_ifs) <;> rfl

@[simp] lemma expect_effects (eventType : String) (read : Except GoError Bytes)
    (write : Except GoError Unit) (p : PusherClient) :
    (p.expect json eventType read write).effects = (p.nextEvent json read write).effects := by
  unfold expect; dsimp only; split <;> (try split_ifs) <;> rfl

/-- The second half of `Authenticate`, once the request is posted: what `httpClient.Do`
returns, checked and decoded into the channel's token, `""` when the answer has none. -/
def authResponse (channel : String) (response : Except GoError HttpResponse) :
    Except GoError String :=
  match response with
  | .error err => .error err
  | .ok resp =>
      if resp.statusCode < 200 ∨ resp.statusCode ≥ 300 then
        .error (.new ("invalid response (status " ++ toString resp.statusCode ++ ")"))
      else
        match resp.body.bind json.unmarshalChannels with
        | .error err => .error err
        | .ok m => .ok ((m.lookup channel).getD "")

/-- `Authenticate`: `request` is whether `http.NewRequestWithContext` builds the request; once
it does, the request is posted with the client's socket ID. -/
def authenticate (channel : String) (request : Except GoError Unit)
    (response : Except GoError HttpResponse) (p : PusherClient) :
    Except GoError String × List Effect :=
  match request with
  | .error err => (.error err, [])
  | .ok () => (authResponse json channel response, [.post ⟨p.authUrl, p.socketID, [channel]⟩])

/-- What `Subscribe` writes as the channel's token, or the error it stops at: `""` for a public
channel, else what `Authenticate` returns. -/
def subscribeToken (channel : String) (request : Except GoError Unit)
    (response : Except GoError HttpResponse) : Except GoError String :=
  if hasPrefix channel "private-" then request.bind fun () => authResponse json channel response
  else .ok ""

/-- What `Authenticate` returns depends on the server's answers only. -/
lemma authenticate_fst (channel : String) (request : Except GoError Unit)
    (response : Except GoError HttpResponse) (p : PusherClient) :
    (p.authenticate json channel request response).1 =
      request.bind fun () => authResponse json channel response := by
  cases request <;> rfl

lemma authenticate_snd (channel : String) (request : Except GoError Unit)
    (response : Except GoError HttpResponse) (p : PusherClient) :
    (p.authenticate json channel request response).2 =
      match request with
      | .ok () => [.post ⟨p.authUrl, p.socketID, [channel]⟩]
      | .error _ => [] := by
  cases request <;> rfl

/-- `Subscribe`: a private channel is authenticated first; the channel is recorded as not yet
confirmed once the subscription is written. -/
def subscribe (channel : String) (request : Except GoError Unit)
    (response : Except GoError HttpResponse) (write : Except GoError Unit) (p : PusherClient) :
    Outcome (Option GoError) :=
  let auth :=
    if hasPrefix channel "private-" then p.authenticate json channel request response
    else (.ok "", [])
  match auth.1 with
  | .error err => ⟨p, some err, auth.2⟩
  | .ok token =>
      let sent := send Pusher.subscribe "" (.subscribe ⟨channel, token, ""⟩) write
      match sent.1 with
      | some err => ⟨p, some err, auth.2 ++ sent.2⟩
      | none => ⟨{ p with channels := p.channels.insert channel false }, none, auth.2 ++ sent.2⟩

lemma subscribe_client (channel : String) (request : Except GoError Unit)
    (response : Except GoError HttpResponse) (write : Except GoError Unit) (p : PusherClient) :
    (p.subscribe json channel request response write).client =
      match subscribeToken json channel request response, write with
      | .ok _, .ok () => { p with channels := p.channels.insert channel false }
      | _, _ => p := by
  unfold subscribe subscribeToken; dsimp only
  split_ifs
  · rw [authenticate_fst]
    rcases request with _ | ⟨⟩
    · rfl
    · cases authResponse json channel response <;> cases write <;> rfl
  · cases write <;> rfl

/-- The error `Subscribe` returns: the authentication's, else the write's. -/
lemma subscribe_value (channel : String) (request : Except GoError Unit)
    (response : Except GoError HttpResponse) (write : Except GoError Unit) (p : PusherClient) :
    (p.subscribe json channel request response write).value =
      match subscribeToken json channel request response with
      | .ok _ => errorOf write
      | .error err => some err := by
  unfold subscribe subscribeToken; dsimp only
  split_ifs
  · rw [authenticate_fst]
    rcases request with _ | ⟨⟩
    · rfl
    · cases authResponse json channel response <;> cases write <;> rfl
  · cases write <;> rfl

/-- When `Subscribe` returns an error, it has left the client as it was. -/
lemma subscribe_client_of_error (channel : String) (request : Except GoError Unit)
    (response : Except GoError HttpResponse) (write : Except GoError Unit) (p : PusherClient)
    (h : (p.subscribe json channel request response write).value.isSome) :
    (p.subscribe json channel request response write).client = p := by
  revert h
  rw [subscribe_value, subscribe_client]
  cases subscribeToken json channel request response <;> cases write <;> simp [errorOf]

lemma subscribe_effects (channel : String) (request : Except GoError Unit)
    (response : Except GoError HttpResponse) (write : Except GoError Unit) (p : PusherClient) :
    (p.subscribe json channel request response write).effects =
      (if hasPrefix channel "private-" then (p.authenticate json channel request response).2
        else []) ++
      match subscribeToken json channel request response with
      | .ok token => [.write ⟨Pusher.subscribe, "", .subscribe ⟨channel, token, ""⟩⟩]
      | .error _ => [] := by
  unfold subscribe subscribeToken; dsimp only
  split_ifs
  · rw [authenticate_fst]
    rcases request with _ | ⟨⟩
    · rfl
    · cases authResponse json channel response <;> cases write <;> rfl
  · cases write <;> rfl

/-- `Unsubscribe`: the channel is forgotten once the request is written. -/
def unsubscribe (channel : String) (write : Except GoError Unit) (p : PusherClient) :
    Outcome (Option GoError) :=
  let sent := send Pusher.unsubscribe "" (.subscribe ⟨channel, "", ""⟩) write
  match sent.1 with
  | some err => ⟨p, some err, sent.2⟩
  | none => ⟨{ p with channels := p.channels.erase channel }, none, sent.2⟩

lemma unsubscribe_client (channel : String) (write : Except GoError Unit) (p : PusherClient) :
    (p.unsubscribe channel write).client =
      match write with
      | .ok () => { p with channels := p.channels.erase channel }
      | .error _ => p := by
  cases write <;> rfl

lemma unsubscribe_value (channel : String) (write : Except GoError Unit) (p : PusherClient) :
    (p.unsubscribe channel write).value = errorOf write := by
  cases write <;> rfl

/-- When `Unsubscribe` returns an error, it has left the client as it was. -/
lemma unsubscribe_client_of_error (channel : String) (write : Except GoError Unit)
    (p : PusherClient) (h : (p.unsubscribe channel write).value.isSome) :
    (p.unsubscribe channel write).client = p := by
  revert h
  rw [unsubscribe_value, unsubscribe_client]
  cases write <;> simp [errorOf]

@[simp] lemma unsubscribe_effects (channel : String) (write : Except GoError Unit)
    (p : PusherClient) :
    (p.unsubscribe channel write).effects =
      [.write ⟨Pusher.unsubscribe, "", .subscribe ⟨channel, "", ""⟩⟩] := by
  cases write <;> rfl

/-- `Close`: the websocket is closed only once the connection is established. -/
def close (result : Except GoError Unit) (p : PusherClient) : Outcome (Option GoError) :=
  if p.connected then ⟨p, errorOf result, [.close]⟩ else ⟨p, none, []⟩

@[simp] lemma close_client (result : Except GoError Unit) (p : PusherClient) :
    (p.close result).client = p := by
  unfold close; split_ifs <;> rfl

lemma close_effects (result : Except GoError Unit) (p : PusherClient) :
    (p.close result).effects = if p.connected then [.close] else [] := by
  unfold close; split_ifs <;> rfl

end PusherClient

/-! ### Sessions -/

/-- A call on the client, with what the connection and the authentication server answer to it. -/
inductive Call where
  | nextEvent (read : Except GoError Bytes) (write : Except GoError Unit)
  | expect (eventType : String) (read : Except GoError Bytes) (write : Except GoError Unit)
  | subscribe (channel : String) (request : Except GoError Unit)
      (response : Except GoError HttpResponse) (write : Except GoError Unit)
  | unsubscribe (channel : String) (write : Except GoError Unit)
  | close (result : Except GoError Unit)

namespace PusherClient

variable (json : Json)

/-- One call: the client after it, and its effects. -/
def step (p : PusherClient) : Call → PusherClient × List Effect
  | .nextEvent read write => let o := p.nextEvent json read write; (o.client, o.effects)
  | .expect eventType read write =>
      let o := p.expect json eventType read write; (o.client, o.effects)
  | .subscribe channel request response write =>
      let o := p.subscribe json channel request response write; (o.client, o.effects)
  | .unsubscribe channel write => let o := p.unsubscribe channel write; (o.client, o.effects)
  | .close result => let o := p.close result; (o.client, o.effects)

/-- Calls one after another: the client at the end, and the effects of all calls in order. -/
def run : List Call → PusherClient → PusherClient × List Effect
  | [], p => (p, [])
  | c :: cs, p =>
      let s := p.step json c
      let r := run cs s.1
      (r.1, s.2 ++ r.2)

@[simp] lemma run_nil (p : PusherClient) : p.run json [] = (p, []) := rfl

@[simp] lemma run_cons (c : Call) (cs : List Call) (p : PusherClient) :
    p.run json (c :: cs) = ((p.step json c).1.run json cs |>.1,
      (p.step json c).2 ++ ((p.step json c).1.run json cs).2) := rfl

/-- A session split in two is the second part run from where the first left the client. -/
lemma run_append (cs ds : List Call) (p : PusherClient) :
    p.run json (cs ++ ds) =
      (((p.run json cs).1.run json ds).1, (p.run json cs).2 ++ ((p.run json cs).1.run json ds).2) := by
  induction cs generalizing p with
  | nil => simp
  | cons c cs ih => simp [ih]

end PusherClient

end Citop.Pusher
