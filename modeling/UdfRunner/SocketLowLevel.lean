import UdfRunner.Lib.Threads

/-!
# `socket_low_level.cc`: one socket for all threads of the VM

Threads call `socket_send` and `socket_recv` in turn, on one `ZMQ_REQ` socket. The mutex is held for one
try of one of the two; that a thread gets the reply to its own request is the work of the socket's state
as well: `socketReplies_own`.
-/

namespace UdfRunner

section
variable {T Msg Resp : Type}

/-- A socket of type `ZMQ_REQ`, with its history: what was sent and what was received, by which thread. -/
structure ReqSocket (T Msg Resp : Type) where
  sent : List (T × Msg) := []
  received : List (T × Resp) := []

namespace ReqSocket

/-- A reply is outstanding. -/
def Awaits (s : ReqSocket T Msg Resp) : Prop := s.received.length < s.sent.length

def requests (s : ReqSocket T Msg Resp) : List Msg := s.sent.map Prod.snd

def send (s : ReqSocket T Msg Resp) (t : T) (m : Msg) : ReqSocket T Msg Resp :=
  { s with sent := s.sent ++ [(t, m)] }

def recv (s : ReqSocket T Msg Resp) (t : T) (r : Resp) : ReqSocket T Msg Resp :=
  { s with received := s.received ++ [(t, r)] }

end ReqSocket

/-- What the threads share. -/
structure SocketState (T Msg Resp : Type) where
  zmqSocketMutex : Option T := none
  socket : ReqSocket T Msg Resp := {}

/-- Where a thread is. `outside` and `asked` are between two calls: after `socket_recv`, with the request
and the response of the last exchange, and after `socket_send`. -/
inductive SocketPlace (Msg Resp : Type)
  | outside (last : Option (Msg × Option Resp))
  | sendLock (m : Msg)
  | sendTry (m : Msg)
  | sendDone (m : Msg)
  | sendFailed (m : Msg)
  | asked (m : Msg)
  | recvLock (m : Msg)
  | recvTry (m : Msg)
  | recvDone (m : Msg) (r : Resp)
  | recvFailed (m : Msg)

/-- `use_zmq_socket_locks`, and the `return_on_error` of the calls of `socket_recv`. -/
structure SocketOptions where
  useZmqSocketLocks : Bool := true
  returnOnError : Bool := false

/-- `zmq_socket_mutex.lock()`: it waits for the mutex to be free. -/
def Locks (o : SocketOptions) (t : T) (s s' : SocketState T Msg Resp) : Prop :=
  if o.useZmqSocketLocks then s.zmqSocketMutex = none ∧ s' = { s with zmqSocketMutex := some t } else s' = s

def unlock (o : SocketOptions) (s : SocketState T Msg Resp) : SocketState T Msg Resp :=
  if o.useZmqSocketLocks then { s with zmqSocketMutex := none } else s

/-- The steps of `socket_send` and `socket_recv`. A try fails by `false` or by an exception; both go to
`external_process_check`, which comes back or aborts the process. `server` answers the last request of
those it was sent. -/
inductive SocketStep (o : SocketOptions) (server : List Msg → Resp) (t : T) :
    SocketPlace Msg Resp → SocketState T Msg Resp →
    SocketPlace Msg Resp → SocketState T Msg Resp → Prop
  | callSend {last m s} : SocketStep o server t (.outside last) s (.sendLock m) s
  | lockSend {m s s'} (h : Locks o t s s') : SocketStep o server t (.sendLock m) s (.sendTry m) s'
  | send {m s} (h : ¬ s.socket.Awaits) :
    SocketStep o server t (.sendTry m) s (.sendDone m) { s with socket := s.socket.send t m }
  | sendFails {m s} : SocketStep o server t (.sendTry m) s (.sendFailed m) s
  | sendReturns {m s} : SocketStep o server t (.sendDone m) s (.asked m) (unlock o s)
  | sendRetries {m s} : SocketStep o server t (.sendFailed m) s (.sendLock m) (unlock o s)
  | callRecv {m s} : SocketStep o server t (.asked m) s (.recvLock m) s
  | lockRecv {m s s'} (h : Locks o t s s') : SocketStep o server t (.recvLock m) s (.recvTry m) s'
  | recv {m s} (h : s.socket.Awaits) :
    SocketStep o server t (.recvTry m) s (.recvDone m (server s.socket.requests))
      { s with socket := s.socket.recv t (server s.socket.requests) }
  | recvFails {m s} : SocketStep o server t (.recvTry m) s (.recvFailed m) s
  | recvReturns {m r s} :
    SocketStep o server t (.recvDone m r) s (.outside (some (m, some r))) (unlock o s)
  | recvRetries {m s} (h : o.returnOnError = false) :
    SocketStep o server t (.recvFailed m) s (.recvLock m) (unlock o s)
  | recvGivesUp {m s} (h : o.returnOnError = true) :
    SocketStep o server t (.recvFailed m) s (.outside (some (m, none))) (unlock o s)

def socketThreads (o : SocketOptions) (server : List Msg → Resp) :
    Threads T (SocketPlace Msg Resp) (SocketState T Msg Resp) := ⟨SocketStep o server⟩

namespace SocketPlace

/-- The places in which a thread holds the mutex. -/
def Holds : SocketPlace Msg Resp → Prop
  | sendTry _ | sendDone _ | sendFailed _ | recvTry _ | recvDone _ _ | recvFailed _ => True
  | _ => False

def Outside : SocketPlace Msg Resp → Prop
  | outside _ | asked _ => True
  | _ => False

/-- The request a thread waits for the response to. -/
def asks : SocketPlace Msg Resp → Option Msg
  | sendDone m | asked m | recvLock m | recvTry m | recvFailed m => some m
  | _ => none

/-- The exchange whose response a thread has, or has returned. -/
def replied : SocketPlace Msg Resp → Option (Msg × Resp)
  | recvDone m r | outside (some (m, some r)) => some (m, r)
  | _ => none

end SocketPlace

namespace ReqSocket

/-- Whose request is outstanding. -/
def asker (s : ReqSocket T Msg Resp) : Option (T × Msg) :=
  if s.received.length < s.sent.length then s.sent.getLast? else none

/-- Every response is the server's to the request in the same place, received by the thread that sent it,
and at most the last request is unanswered. -/
structure Answered (server : List Msg → Resp) (s : ReqSocket T Msg Resp) : Prop where
  le : s.received.length ≤ s.sent.length
  one : s.sent.length ≤ s.received.length + 1
  own : ∀ k t r, s.received[k]? = some (t, r) →
    ∃ m, s.sent[k]? = some (t, m) ∧ r = server ((s.sent.take (k + 1)).map Prod.snd)

/-- The last request of the thread was `m`, and `r` is the response to it. -/
def Replied (server : List Msg → Resp) (s : ReqSocket T Msg Resp) (t : T) (m : Msg) (r : Resp) : Prop :=
  ∃ pre post, s.sent = pre ++ (t, m) :: post ∧ (∀ x ∈ post, x.1 ≠ t) ∧
    r = server (pre.map Prod.snd ++ [m])

variable {server : List Msg → Resp} {s : ReqSocket T Msg Resp} {t u : T} {m m' : Msg} {r : Resp}

theorem asker_of_not_awaits (h : ¬ s.Awaits) : s.asker = none := if_neg h

theorem asker_send (h : s.Answered server) : (s.send t m).asker = some (t, m) := by
  have hlt : s.received.length < (s.sent ++ [(t, m)]).length := by
    have := h.le
    rw [List.length_append, List.length_singleton]
    omega
  rw [asker, send, if_pos hlt, List.getLast?_concat]

theorem asker_recv (h : s.Answered server) : (s.recv t r).asker = none := by
  refine asker_of_not_awaits ?_
  have := h.one
  show ¬ (s.received ++ [(t, r)]).length < s.sent.length
  rw [List.length_append, List.length_singleton]
  omega

theorem exists_sent_of_asker (h : s.asker = some (t, m)) : ∃ pre, s.sent = pre ++ [(t, m)] := by
  unfold asker at h
  split_ifs at h
  exact List.getLast?_eq_some_iff.mp h

theorem Answered.send (h : s.Answered server) (hfree : ¬ s.Awaits) : (s.send t m).Answered server := by
  unfold Awaits at hfree
  have hle := h.le
  refine ⟨?_, ?_, fun k u r hk => ?_⟩
  · show s.received.length ≤ (s.sent ++ [(t, m)]).length
    rw [List.length_append]
    omega
  · show (s.sent ++ [(t, m)]).length ≤ s.received.length + 1
    rw [List.length_append, List.length_singleton]
    omega
  · obtain ⟨m', hm', hr⟩ := h.own k u r hk
    have hlt : k < s.sent.length := (List.getElem?_eq_some_iff.mp hm').1
    refine ⟨m', ?_, ?_⟩
    · show (s.sent ++ [(t, m)])[k]? = _
      rw [List.getElem?_append_left hlt]
      exact hm'
    · show r = server (((s.sent ++ [(t, m)]).take (k + 1)).map Prod.snd)
      rw [List.take_append_of_le_length hlt]
      exact hr

theorem Answered.recv (h : s.Answered server) (hasker : s.asker = some (t, m)) :
    (s.recv t (server s.requests)).Answered server := by
  obtain ⟨pre, hsent⟩ := exists_sent_of_asker hasker
  have hlt : s.received.length < s.sent.length := by
    unfold asker at hasker
    split_ifs at hasker with hlt
    exact hlt
  have hone := h.one
  refine ⟨?_, ?_, fun k u r hk => ?_⟩
  · show (s.received ++ [_]).length ≤ s.sent.length
    rw [List.length_append, List.length_singleton]
    omega
  · show s.sent.length ≤ (s.received ++ [_]).length + 1
    rw [List.length_append, List.length_singleton]
    omega
  · have hk' : (s.received ++ [(t, server s.requests)])[k]? = some (u, r) := hk
    rcases Nat.lt_trichotomy k s.received.length with hlt' | rfl | hgt
    · rw [List.getElem?_append_left hlt'] at hk'
      exact h.own k u r hk'
    · rw [List.getElem?_concat_length] at hk'
      obtain ⟨rfl, rfl⟩ := Prod.mk.inj (Option.some.inj hk')
      have hlen : s.sent.length = s.received.length + 1 := by omega
      have hpre : pre.length = s.received.length := by
        rw [hsent, List.length_append, List.length_singleton] at hlen
        omega
      refine ⟨m, ?_, ?_⟩
      · show s.sent[s.received.length]? = _
        rw [hsent, ← hpre, List.getElem?_concat_length]
      · show server s.requests = server ((s.sent.take (s.received.length + 1)).map Prod.snd)
        rw [← hlen, List.take_length]
        rfl
    · have : k < (s.received ++ [(t, server s.requests)]).length := (List.getElem?_eq_some_iff.mp hk').1
      rw [List.length_append, List.length_singleton] at this
      omega

theorem Replied.send (h : s.Replied server u m' r) (hne : u ≠ t) :
    (s.send t m).Replied server u m' r := by
  obtain ⟨pre, post, hsent, hpost, hr⟩ := h
  refine ⟨pre, post ++ [(t, m)], ?_, ?_, hr⟩
  · show s.sent ++ [(t, m)] = _
    rw [hsent, List.append_assoc]
    rfl
  · intro x hx
    rcases List.mem_append.mp hx with hx | hx
    · exact hpost x hx
    · obtain rfl := List.mem_singleton.mp hx
      exact hne.symm

theorem replied_recv (hasker : s.asker = some (t, m)) :
    (s.recv t (server s.requests)).Replied server t m (server s.requests) := by
  obtain ⟨pre, hsent⟩ := exists_sent_of_asker hasker
  refine ⟨pre, [], hsent, by simp, ?_⟩
  rw [requests, hsent, List.map_append]
  rfl

end ReqSocket

/-! ### The threads -/

/-- What holds of a thread in its place. -/
structure InPlace (server : List Msg → Resp) (t : T) (p : SocketPlace Msg Resp)
    (s : SocketState T Msg Resp) : Prop where
  mutex : p.Holds ↔ s.zmqSocketMutex = some t
  asks : ∀ m, p.asks = some m ↔ s.socket.asker = some (t, m)
  replied : ∀ m r, p.replied = some (m, r) → s.socket.Replied server t m r
  got : ∀ m, p ≠ .outside (some (m, none))

section
variable {server : List Msg → Resp} {t u : T} {p p' q : SocketPlace Msg Resp} {s s' : SocketState T Msg Resp}

theorem InPlace.own (hs : s.socket.Answered server) (h : InPlace server t p s)
    (hstep : SocketStep {} server t p s p' s') : s'.socket.Answered server ∧ InPlace server t p' s' := by
  obtain ⟨hmutex, hasks, hreplied, -⟩ := h
  cases hstep with
  | callSend => exact ⟨hs, hmutex, hasks, nofun, nofun⟩
  | callRecv => exact ⟨hs, hmutex, hasks, hreplied, nofun⟩
  | sendFails => exact ⟨hs, hmutex, hasks, hreplied, nofun⟩
  | recvFails => exact ⟨hs, hmutex, hasks, hreplied, nofun⟩
  | lockSend h | lockRecv h =>
    obtain ⟨-, rfl⟩ := h
    exact ⟨hs, ⟨fun _ => rfl, fun _ => trivial⟩, hasks, hreplied, nofun⟩
  | sendReturns | sendRetries | recvReturns | recvRetries =>
    exact ⟨hs, ⟨False.elim, nofun⟩, hasks, hreplied, nofun⟩
  | send h =>
    refine ⟨hs.send h, hmutex, fun m' => ?_, nofun, nofun⟩
    show some _ = some m' ↔ (s.socket.send t _).asker = _
    rw [ReqSocket.asker_send hs]
    simp
  | @recv m s h =>
    have hasker := (hasks m).mp rfl
    refine ⟨hs.recv hasker, hmutex, fun m' => ?_, ?_, nofun⟩
    · show none = some m' ↔ (s.socket.recv t _).asker = _
      rw [ReqSocket.asker_recv hs]
      simp
    · rintro m' r h'
      obtain ⟨rfl, rfl⟩ := Prod.mk.inj (Option.some.inj h')
      exact ReqSocket.replied_recv hasker
  | recvGivesUp h => cases h

theorem InPlace.other (hs : s.socket.Answered server) (ht : InPlace server t p s)
    (hstep : SocketStep {} server t p s p' s') (hne : u ≠ t) (h : InPlace server u q s) :
    InPlace server u q s' := by
  obtain ⟨hmutex, hasks, hreplied, hgot⟩ := h
  have hfree : ∀ {m : Option T}, (m = none ∨ m = some t) → s.zmqSocketMutex = m →
      ∀ m' : Option T, (m' = none ∨ m' = some t) → (q.Holds ↔ m' = some u) := by
    rintro m hm hsm m' hm'
    rw [hmutex, hsm]
    rcases hm with rfl | rfl <;> rcases hm' with rfl | rfl <;> simp [hne.symm]
  cases hstep with
  | callSend | callRecv | sendFails | recvFails => exact ⟨hmutex, hasks, hreplied, hgot⟩
  | lockSend h | lockRecv h =>
    obtain ⟨hnone, rfl⟩ := h
    exact ⟨hfree (.inl rfl) hnone _ (.inr rfl), hasks, hreplied, hgot⟩
  | sendReturns | sendRetries | recvReturns | recvRetries =>
    exact ⟨hfree (.inr rfl) (ht.mutex.mp trivial) _ (.inl rfl), hasks, hreplied, hgot⟩
  | send h =>
    refine ⟨hmutex, fun m' => ?_, fun m' r h' => (hreplied m' r h').send hne, hgot⟩
    show _ ↔ (s.socket.send t _).asker = _
    rw [hasks, ReqSocket.asker_send hs, ReqSocket.asker_of_not_awaits h]
    simp [hne.symm]
  | @recv m s h =>
    refine ⟨hmutex, fun m' => ?_, hreplied, hgot⟩
    show _ ↔ (s.socket.recv t _).asker = _
    rw [hasks, ReqSocket.asker_recv hs, (ht.asks m).mp rfl]
    simp [hne.symm]
  | recvGivesUp h => cases h

end

def Returns (p p' : SocketPlace Msg Resp) : Prop := ¬ p.Outside ∧ p'.Outside

/-- Threads that take turns in `socket_send` and `socket_recv` with locks, from the start. -/
def SocketRun [DecidableEq T] (server : List Msg → Resp) (l : List T)
    (c : Threads.Config T (SocketPlace Msg Resp) (SocketState T Msg Resp)) : Prop :=
  (socketThreads {} server).interleave.Path ⟨{}, fun _ => .outside none⟩ l c

variable [DecidableEq T] {server : List Msg → Resp} {l : List T}
  {c : Threads.Config T (SocketPlace Msg Resp) (SocketState T Msg Resp)}

theorem SocketRun.inPlace (h : SocketRun server l c) :
    c.shared.socket.Answered server ∧ ∀ t, InPlace server t (c.place t) c.shared := by
  refine Threads.owicki_gries (A := InPlace server) (I := fun s => s.socket.Answered server) h ?_ ?_ ?_ ?_
  · exact ⟨Nat.le_refl _, Nat.le_succ _, by simp⟩
  · exact fun t => ⟨⟨False.elim, nofun⟩, fun m => ⟨nofun, nofun⟩, nofun, nofun⟩
  · exact fun t p s p' s' hs ht hstep => ht.own hs hstep
  · exact fun t p s p' s' u q hs ht hstep hne hu => ht.other hs hstep hne hu

/-- In every run of any number of threads: what `socket_recv` returned last is the server's response to
the thread's own last request, every request is answered to the thread that sent it and at most one is
not answered, and a thread that returns leaves the mutex free. -/
theorem socketReplies_own (server : List Msg → Resp) (l : List T)
    (c : Threads.Config T (SocketPlace Msg Resp) (SocketState T Msg Resp)) (h : SocketRun server l c) :
    (∀ t m r, c.place t = .outside (some (m, r)) →
      ∃ resp, r = some resp ∧ c.shared.socket.Replied server t m resp) ∧
    c.shared.socket.Answered server ∧
    (∀ t, (c.place t).Outside → c.shared.zmqSocketMutex ≠ some t) ∧
    ∀ t p s, SocketStep {} server t (c.place t) c.shared p s → Returns (c.place t) p →
      c.shared.zmqSocketMutex = some t ∧ s.zmqSocketMutex = none := by
  obtain ⟨hanswered, hplace⟩ := h.inPlace
  refine ⟨fun t m r ht => ?_, hanswered, fun t ht hmutex => ?_, fun t p s hstep ⟨hin, hout⟩ => ?_⟩
  · cases r with
    | none => exact absurd ht ((hplace t).got m)
    | some r => exact ⟨r, rfl, (hplace t).replied m r (by rw [ht]; rfl)⟩
  · have hholds := (hplace t).mutex.mpr hmutex
    cases hp : c.place t <;> rw [hp] at ht hholds <;> first | exact ht | exact hholds
  · have hmutex := (hplace t).mutex
    generalize c.place t = q at hstep hin hmutex
    cases hstep <;> first | exact hout.elim | exact ⟨hmutex.mp trivial, rfl⟩

end

/-! ### A run to look at -/

theorem SocketRun.step [DecidableEq T] {server : List Msg → Resp} {l : List T}
    {c : Threads.Config T (SocketPlace Msg Resp) (SocketState T Msg Resp)} (h : SocketRun server l c) (t : T)
    {p q : SocketPlace Msg Resp} {s : SocketState T Msg Resp} (hp : c.place t = p)
    (hs : SocketStep {} server t p c.shared q s) :
    SocketRun server (l ++ [t]) ⟨s, Function.update c.place t q⟩ := by
  subst hp
  exact Lts.Path.step h (.step hs)

/-- Two threads: while `false` waits for its reply, `true` tries to send and fails. -/
theorem exists_tryRun : ∃ (l : List Bool) (c : Threads.Config Bool (SocketPlace Nat Nat) (SocketState Bool Nat Nat)),
    SocketRun List.length l c ∧ c.place false = .outside (some (7, some 1)) ∧ c.place true = .sendLock 8 := by
  have h : SocketRun (T := Bool) (List.length : List Nat → Nat) [] _ := .nil
  have h := h.step false rfl (.callSend (m := 7))
  have h := h.step false rfl (.lockSend ⟨rfl, rfl⟩)
  have h := h.step false rfl (.send (Nat.lt_irrefl 0))
  have h := h.step false rfl .sendReturns
  have h := h.step true rfl (.callSend (m := 8))
  have h := h.step true rfl (.lockSend ⟨rfl, rfl⟩)
  have h := h.step true rfl .sendFails
  have h := h.step true rfl .sendRetries
  have h := h.step false rfl .callRecv
  have h := h.step false rfl (.lockRecv ⟨rfl, rfl⟩)
  have h := h.step false rfl (.recv Nat.zero_lt_one)
  have h := h.step false rfl .recvReturns
  exact ⟨_, _, h, rfl, rfl⟩

/-- It gets the reply to the first request. -/
theorem socketReplies_own_try :
    ∃ (l : List Bool) (c : Threads.Config Bool (SocketPlace Nat Nat) (SocketState Bool Nat Nat)),
      SocketRun List.length l c ∧ c.shared.socket.Replied List.length false 7 1 := by
  obtain ⟨l, c, h, hfalse, -⟩ := exists_tryRun
  obtain ⟨r, hr, hreplied⟩ := (socketReplies_own List.length l c h).1 false 7 (some 1) hfalse
  obtain rfl : 1 = r := by simpa using hr
  exact ⟨l, c, h, hreplied⟩

end UdfRunner
