import Citop.Pusher.Client

/-!
What holds of the Pusher client over whole sessions: from any client, after any sequence of
calls, whatever the connection and the authentication server answer.

* `run_lastWrite`: a view of the client that every call either sets or leaves is, after a
  session, what the last call that set it set it to. With the step lemmas `lookup_step` and
  `connection_step` it gives `channels_run`, each channel's entry in the map, and
  `connection_run`, the connection as the client knows it.
* `close_after_run`, `subscribe_after_run`: what `Close` and `Subscribe` do on the connection
  after a session, read off that connection.
* `Block` lists what one call can do on the connection (`block_step`), and
  `WellFormedWrites` is what these blocks keep when they are put one after another
  (`WellFormedWrites.append`): `run_wellFormedWrites`.
* `pongs_run`: the client answers each ping it reads, and writes a pong for nothing else.
-/

namespace Citop.Pusher

open PusherClient

variable (json : Json)

/-! ### What a call reads -/

namespace Call

/-- The event the call reads and decodes, if it reads one. -/
def received : Call → Option PusherEvent
  | .nextEvent read _ => (read.bind json.unmarshalEvent).toOption
  | .expect _ read _ => (read.bind json.unmarshalEvent).toOption
  | _ => none

/-- The payload of a `connection_established` event that the call reads and decodes. -/
def established (c : Call) : Option ConnectionEstablishedPayload :=
  (c.received json).bind fun e =>
    if e.event = connectionEstablished then
      (unmarshalPayload json.unmarshalString json.unmarshalConnectionEstablished e.data).toOption
    else none

/-- Whether the call reads a ping. -/
def readsPing (c : Call) : Bool := (c.received json).any fun e => e.event = ping

/-- What the call does to the entry of `channel` in the client's map: `some v` when it sets the
entry to `v` (`v = none` removes it), `none` when it leaves it. A confirmation from the server
marks the channel subscribed, a subscription that is written marks it pending, and an
unsubscription that is written removes it. -/
def channelWrite (channel : String) (c : Call) : Option (Option Bool) :=
  match c with
  | .subscribe ch request response write =>
      if ch = channel ∧ (subscribeToken json ch request response).isOk ∧ write.isOk then
        some (some false)
      else none
  | .unsubscribe ch write => if ch = channel ∧ write.isOk then some none else none
  | _ =>
      if (c.received json).any fun e =>
          (e.event = subscriptionSucceeded ∨ e.event = publicSubscriptionSucceeded) ∧
            e.channel = channel then some (some true)
      else none

end Call

/-- The connection as the client knows it: whether it is established, the socket ID and the
activity timeout. -/
def PusherClient.connection (p : PusherClient) : Bool × String × Int :=
  (p.connected, p.socketID, p.timeout)

/-! ### Last writes along a session -/

lemma getD_or {α : Type} (a b : Option α) (x : α) :
    (a.or b).getD x = a.getD (b.getD x) := by
  cases a <;> rfl

lemma findSome?_map_comp {α β γ : Type} (f : β → γ) (g : α → Option β) (l : List α) :
    l.findSome? (fun a => (g a).map f) = (l.findSome? g).map f := by
  induction l with
  | nil => rfl
  | cons a l ih => cases h : g a <;> simp [List.findSome?_cons, h, ih]

/-- A view of the client that every call either sets or leaves is, after a session, what the
last call that set it set it to, and what it was before the session if none did. -/
lemma run_lastWrite {β : Type} (view : PusherClient → β) (write : Call → Option β)
    (hstep : ∀ p c, view (p.step json c).1 = (write c).getD (view p)) (calls : List Call)
    (p : PusherClient) :
    view (p.run json calls).1 = (calls.reverse.findSome? write).getD (view p) := by
  induction calls generalizing p with
  | nil => rfl
  | cons c cs ih =>
    have hc : [c].findSome? write = write c := by cases h : write c <;> simp [h]
    simp only [run_cons, ih, hstep, List.reverse_cons, List.findSome?_append, getD_or, hc]

/-! ### The channel map -/

lemma lookup_handle (write : Except GoError Unit) (e : PusherEvent) (p : PusherClient)
    (channel : String) :
    (p.handle json write e).client.channels.lookup channel =
      if (e.event = subscriptionSucceeded ∨ e.event = publicSubscriptionSucceeded) ∧
        e.channel = channel then some true else p.channels.lookup channel := by
  rw [handle_client]
  by_cases h1 : e.event = connectionEstablished
  · have h2 : ¬(e.event = subscriptionSucceeded ∨ e.event = publicSubscriptionSucceeded) := by
      rw [h1]; decide
    rw [if_pos h1, if_neg fun h => h2 h.1]
    split <;> rfl
  rw [if_neg h1]
  by_cases h2 : e.event = subscriptionSucceeded ∨ e.event = publicSubscriptionSucceeded
  · rw [if_pos h2]
    by_cases h3 : e.channel = channel
    · rw [if_pos ⟨h2, h3⟩, h3, AList.lookup_insert]
    · rw [if_neg fun h => h3 h.2]
      exact AList.lookup_insert_ne (Ne.symm h3)
  · rw [if_neg h2, if_neg fun h => h2 h.1]

/-- One call moves the entry of a channel as `Call.channelWrite` says. -/
lemma lookup_step (channel : String) (p : PusherClient) (c : Call) :
    (p.step json c).1.channels.lookup channel =
      (c.channelWrite json channel).getD (p.channels.lookup channel) := by
  cases c with
  | nextEvent read write | expect _ read write =>
    simp only [step, expect_client, nextEvent_client, Call.channelWrite, Call.received]
    split <;> rename_i heq <;> simp [heq, lookup_handle, Except.toOption]
    split_ifs <;> rfl
  | subscribe ch request response write =>
    simp only [step, subscribe_client, Call.channelWrite]
    rcases eq_or_ne ch channel with rfl | h
    · cases subscribeToken json ch request response <;> cases write <;>
        simp [Except.isOk, Except.toBool]
    · cases subscribeToken json ch request response <;> cases write <;>
        simp [h, AList.lookup_insert_ne (Ne.symm h)]
  | unsubscribe ch write =>
    simp only [step, unsubscribe_client, Call.channelWrite]
    rcases eq_or_ne ch channel with rfl | h
    · cases write <;> simp [Except.isOk, Except.toBool]
    · cases write <;> simp [h, AList.lookup_erase_ne (Ne.symm h)]
  | close result => simp [step, Call.channelWrite, Call.received]

/-- After any session, each channel's entry in the client's map is what the last call of the
session that wrote it wrote, and what it was before the session if no call did. -/
theorem channels_run (channel : String) (calls : List Call) (p : PusherClient) :
    (p.run json calls).1.channels.lookup channel =
      (calls.reverse.findSome? (Call.channelWrite json channel)).getD
        (p.channels.lookup channel) :=
  run_lastWrite json (fun q => q.channels.lookup channel) _ (lookup_step json channel) calls p

/-! ### The connection -/

/-- One call sets the connection when it reads and decodes a `connection_established` event, and
leaves it otherwise. -/
lemma connection_step (p : PusherClient) (c : Call) :
    (p.step json c).1.connection =
      ((c.established json).map fun e => (true, e.socketId, e.activityTimeout)).getD
        p.connection := by
  cases c with
  | nextEvent read write | expect _ read write =>
    simp only [step, expect_client, nextEvent_client, Call.established, Call.received]
    split <;> rename_i heq <;> simp only [heq, Except.toOption, Option.bind]
    rw [handle_client]
    split_ifs
    · cases unmarshalPayload json.unmarshalString json.unmarshalConnectionEstablished _ <;> rfl
    all_goals rfl
  | subscribe ch request response write =>
    simp only [step, subscribe_client]
    split <;> rfl
  | unsubscribe ch write => cases write <;> rfl
  | close result => simp [step, Call.established, Call.received]

/-- After any session, the client knows the connection from the last `connection_established`
event of the session it could decode: it is established, with that event's socket ID and
activity timeout. If the session has none, the connection is as it was before. -/
theorem connection_run (calls : List Call) (p : PusherClient) :
    (p.run json calls).1.connection =
      ((calls.reverse.findSome? (Call.established json)).map
        fun e => (true, e.socketId, e.activityTimeout)).getD p.connection := by
  rw [← findSome?_map_comp]
  exact run_lastWrite json PusherClient.connection _ (connection_step json) calls p

/-- No call changes the authentication URL. -/
lemma authUrl_run (calls : List Call) (p : PusherClient) :
    (p.run json calls).1.authUrl = p.authUrl := by
  have hstep : ∀ (q : PusherClient) (c : Call),
      (q.step json c).1.authUrl = (none : Option String).getD q.authUrl := by
    intro q c
    cases c with
    | nextEvent read write | expect _ read write =>
      simp only [step, expect_client, nextEvent_client]
      split
      · rw [handle_client]; split_ifs <;> (try split) <;> rfl
      · rfl
    | subscribe ch request response write => simp only [step, subscribe_client]; split <;> rfl
    | unsubscribe ch write => cases write <;> rfl
    | close result => simp [step]
  rw [run_lastWrite json PusherClient.authUrl (fun _ => none) hstep,
    List.findSome?_eq_none_iff.mpr fun _ _ => rfl]
  rfl

/-- After any session, `Close` closes the websocket exactly when the client was connected before
the session or the session decoded a `connection_established` event. A client that was never
told the connection is established leaves its websocket open. -/
theorem close_after_run (result : Except GoError Unit) (calls : List Call) (p : PusherClient) :
    ((p.run json calls).1.close result).effects =
      if p.connected ∨ ∃ c ∈ calls, (c.established json).isSome then [.close] else [] := by
  have h : (p.run json calls).1.connected =
      ((calls.reverse.findSome? (Call.established json)).isSome || p.connected) := by
    cases hf : calls.reverse.findSome? (Call.established json) <;>
      simpa [hf, PusherClient.connection] using congrArg Prod.fst (connection_run json calls p)
  rw [close_effects, h]
  simp [List.findSome?_isSome_iff, or_comm]

/-- After any session, `Subscribe` to a private channel whose request can be built posts one
authentication request, to the client's authentication URL, for exactly that channel, with the
socket ID of the last `connection_established` event the session decoded (the one the client
had before the session if there is none); then it writes the subscription with the token the
server answered, if it answered one. A public channel is subscribed to with no request and no
token. -/
theorem subscribe_after_run (channel : String) (request : Except GoError Unit)
    (response : Except GoError HttpResponse) (write : Except GoError Unit) (calls : List Call)
    (p : PusherClient) :
    ((p.run json calls).1.subscribe json channel request response write).effects =
      (if hasPrefix channel "private-" ∧ request.isOk then
        [.post ⟨p.authUrl, ((calls.reverse.findSome? (Call.established json)).map
          (·.socketId)).getD p.socketID, [channel]⟩] else []) ++
      match subscribeToken json channel request response with
      | .ok token => [.write ⟨Pusher.subscribe, "", .subscribe ⟨channel, token, ""⟩⟩]
      | .error _ => [] := by
  have h : (p.run json calls).1.socketID =
      ((calls.reverse.findSome? (Call.established json)).map (·.socketId)).getD p.socketID := by
    cases hf : calls.reverse.findSome? (Call.established json) <;>
      simpa [hf, PusherClient.connection] using congrArg (·.2.1) (connection_run json calls p)
  rw [subscribe_effects, authenticate_snd, authUrl_run, ← h]
  congr 1
  by_cases hp : hasPrefix channel "private-" <;> rcases request with _ | ⟨⟩ <;>
    simp [hp, Except.isOk, Except.toBool]

/-! ### What the client writes -/

/-- What one call can do on the connection. -/
inductive Block : List Effect → Prop
  | silent : Block []
  | pong : Block [.write pongMessage]
  | subscribe {channel : String} (h : hasPrefix channel "private-" = false) :
      Block [.write ⟨Pusher.subscribe, "", .subscribe ⟨channel, "", ""⟩⟩]
  | authenticate (r : AuthRequest) : Block [.post r]
  | subscribePrivate {channel token : String} {r : AuthRequest}
      (hp : hasPrefix channel "private-" = true) (h : r.channels = [channel]) :
      Block [.post r, .write ⟨Pusher.subscribe, "", .subscribe ⟨channel, token, ""⟩⟩]
  | unsubscribe (channel : String) :
      Block [.write ⟨Pusher.unsubscribe, "", .subscribe ⟨channel, "", ""⟩⟩]
  | close : Block [.close]

/-- Every call does one of the things `Block` lists. -/
lemma block_step (p : PusherClient) (c : Call) : Block (p.step json c).2 := by
  cases c with
  | nextEvent read write | expect _ read write =>
    simp only [step, expect_effects, nextEvent_effects]
    split
    · rw [handle_effects]; split_ifs
      · exact .pong
      · exact .silent
    · exact .silent
  | subscribe ch request response write =>
    simp only [step, subscribe_effects, subscribeToken]
    by_cases hp : hasPrefix ch "private-"
    · simp only [hp, if_true, authenticate_snd]
      rcases request with _ | ⟨⟩
      · exact .silent
      · cases authResponse json ch response
        · exact .authenticate _
        · exact .subscribePrivate hp rfl
    · simp only [hp, if_false]
      exact .subscribe (by simpa using hp)
  | unsubscribe ch write => simp only [step, unsubscribe_effects]; exact .unsubscribe ch
  | close result =>
    simp only [step, close_effects]
    split_ifs
    · exact .close
    · exact .silent

/-- The shape a message written at index `i` of the effect log `es` has: a pong, an
unsubscription, or a subscription; a subscription to a private channel comes right after the
authentication request for exactly that channel, and one to a public channel carries no
token. -/
def WriteShape (es : List Effect) (i : Nat) (m : Message) : Prop :=
  m = pongMessage ∨ (∃ channel, m = ⟨Pusher.unsubscribe, "", .subscribe ⟨channel, "", ""⟩⟩) ∨
    ∃ channel token, m = ⟨Pusher.subscribe, "", .subscribe ⟨channel, token, ""⟩⟩ ∧
      if hasPrefix channel "private-" then
        ∃ j r, i = j + 1 ∧ es[j]? = some (.post r) ∧ r.channels = [channel]
      else token = ""

/-- Every message of the log has its shape. -/
def WellFormedWrites (es : List Effect) : Prop :=
  ∀ i m, es[i]? = some (.write m) → WriteShape es i m

/-- A shape survives moving the message to another index of another log, as long as what stood
right before it moves along. -/
lemma WriteShape.shift {es es' : List Effect} {i i' : Nat} {m : Message}
    (hi : ∀ j, i = j + 1 → ∃ j', i' = j' + 1 ∧ es'[j']? = es[j]?) (h : WriteShape es i m) :
    WriteShape es' i' m := by
  rcases h with h | h | ⟨channel, token, rfl, h⟩
  · exact .inl h
  · exact .inr (.inl h)
  · refine .inr (.inr ⟨channel, token, rfl, ?_⟩)
    split_ifs at h ⊢
    · obtain ⟨j, r, hj, hr, hc⟩ := h
      obtain ⟨j', rfl, hj'⟩ := hi j hj
      exact ⟨j', r, rfl, hj'.trans hr, hc⟩
    · exact h

lemma WellFormedWrites.append {a b : List Effect} (ha : WellFormedWrites a)
    (hb : WellFormedWrites b) : WellFormedWrites (a ++ b) := by
  intro i m h
  by_cases hi : i < a.length
  · rw [List.getElem?_append_left hi] at h
    refine (ha i m h).shift fun j hj => ⟨j, hj, List.getElem?_append_left (by omega)⟩
  · rw [List.getElem?_append_right (by omega)] at h
    refine (hb _ m h).shift fun j hj => ⟨j + a.length, by omega, ?_⟩
    rw [List.getElem?_append_right (by omega), Nat.add_sub_cancel]

lemma Block.wellFormedWrites {b : List Effect} (hb : Block b) : WellFormedWrites b := by
  intro i m h
  cases hb with
  | silent => simp at h
  | pong => rcases i with _ | i <;> simp at h; exact .inl h.symm
  | @subscribe channel hp =>
    rcases i with _ | i <;> simp at h
    exact .inr (.inr ⟨channel, "", h.symm, by simp [hp]⟩)
  | authenticate r => rcases i with _ | i <;> simp at h
  | @subscribePrivate channel token r hp hr =>
    rcases i with _ | _ | i <;> simp at h
    exact .inr (.inr ⟨channel, token, h.symm, by rw [if_pos hp]; exact ⟨0, r, rfl, rfl, hr⟩⟩)
  | unsubscribe channel =>
    rcases i with _ | i <;> simp at h
    exact .inr (.inl ⟨channel, h.symm⟩)
  | close => rcases i with _ | i <;> simp at h

/-- Over any session, the client writes pongs, unsubscriptions and subscriptions only. It
subscribes to a private channel only right after the authentication request for exactly that
channel, and to a public channel with no token. -/
theorem run_wellFormedWrites (calls : List Call) (p : PusherClient) :
    WellFormedWrites (p.run json calls).2 := by
  induction calls generalizing p with
  | nil => intro i m h; simp at h
  | cons c cs ih => exact (block_step json p c).wellFormedWrites.append (ih _)

/-! ### Pings -/

lemma pongs_step (p : PusherClient) (c : Call) :
    (p.step json c).2.count (.write pongMessage) = if c.readsPing json then 1 else 0 := by
  cases c with
  | nextEvent read write | expect _ read write =>
    simp only [step, expect_effects, nextEvent_effects, Call.readsPing, Call.received]
    split <;> rename_i heq <;> simp [heq, Except.toOption, handle_effects]
    split_ifs <;> simp
  | subscribe ch request response write =>
    simp only [step, subscribe_effects, authenticate_snd, Call.readsPing, Call.received,
      Option.any_none, Bool.false_eq_true, if_false]
    split_ifs <;> (try split) <;> (try split) <;> simp [pongMessage, Pusher.subscribe, pong]
  | unsubscribe ch write =>
    simp [step, Call.readsPing, Call.received, pongMessage, Pusher.unsubscribe, pong]
  | close result =>
    simp only [step, close_effects, Call.readsPing, Call.received, Option.any_none,
      Bool.false_eq_true, if_false]
    split_ifs <;> simp

/-- Over any session, the client writes one pong for each ping it reads, and no other. -/
theorem pongs_run (calls : List Call) (p : PusherClient) :
    (p.run json calls).2.count (.write pongMessage) = calls.countP (Call.readsPing json) := by
  induction calls generalizing p with
  | nil => rfl
  | cons c cs ih =>
    simp only [run_cons, List.count_append, pongs_step, ih, List.countP_cons]
    omega

end Citop.Pusher
