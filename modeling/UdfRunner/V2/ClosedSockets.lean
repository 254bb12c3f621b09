import UdfRunner.V2.SocketIo

/-!
# What a closed socket does

A socket or listener is closed after `close`, after `release_native_handle` and when it was moved from.
Only the move takes its facade away. `closedSocket_fails_iff`: a closed one fails with a `system_error`
exactly if it is not one that was moved from.
-/

namespace UdfRunner
open Proc

variable {P : Type} {α β : Type}

/-- One of the enumerators. -/
def Shutdown.IsDirection : Shutdown → Prop
  | .other _ => False
  | _ => True

def ThrowsSystemError (m : Posixly P α) (k : PosixState (PosixEvent P) PosixAnswer) : Prop :=
  ∃ errno what, (m k).1 = .throw (.systemError errno what)

/-- POSIX reports `EBADF` for the descriptor -1. -/
def BadDescriptor (k : PosixState (PosixEvent P) PosixAnswer) : Prop :=
  k.answers.head? = some (.fails Posix.EBADF)

def UnixSocket.FailsCleanly (x : UnixSocket P) : Prop := ∀ k, BadDescriptor k →
  (∀ buffers, buffers ≠ [] → ThrowsSystemError (x.readSome buffers) k ∧
    ThrowsSystemError (x.writeSome buffers) k) ∧
  ∀ how : Shutdown, how.IsDirection → ThrowsSystemError (x.shutdown how) k

def UnixSocketListener.FailsCleanly (x : UnixSocketListener P) : Prop := ∀ k, BadDescriptor k →
  ∀ flags, ThrowsSystemError (x.accept flags) k

namespace Wrapper

/-- A socket or a listener. -/
def IsSocket : Wrapper P → Prop
  | descriptor _ => False
  | socket _ | listener _ => True

def isOpen : Wrapper P → Bool
  | descriptor x => x.isOpen
  | socket x => x.fileDescriptor.isOpen
  | listener x => x.fileDescriptor.isOpen

def posixFacade : Wrapper P → Option P
  | descriptor x => x.posixPointer
  | socket x => x.fileDescriptor.posixPointer
  | listener x => x.posixPointer

def FailsCleanly : Wrapper P → Prop
  | descriptor _ => True
  | socket x => x.FailsCleanly
  | listener x => x.FailsCleanly

end Wrapper

/-- The objects that were moved from: an assignment gives its target what its source was. -/
def SocketOp.movedFrom (w : SocketWorld P) (moved : List Nat) : SocketOp P → List Nat
  | .moveConstruct o => o :: if o ∈ moved then w.objects.length :: moved else moved
  | .moveAssign target source =>
    if target = source then moved
    else source :: if source ∈ moved then target :: moved else moved.filter (· ≠ target)
  | _ => moved

def SocketWorld.movedFrom : SocketWorld P → List Nat → List (SocketOp P) → List Nat
  | _, moved, [] => moved
  | w, moved, op :: ops => (op.run w).2.movedFrom (op.movedFrom w moved) ops

/-! ### What a call on a closed object does -/

section
variable {k : PosixState (PosixEvent P) PosixAnswer}

theorem throwsSystemError_iff {m : Posixly P α} : ThrowsSystemError m k ↔
    wp m (fun o _ => ∃ errno what, o = .throw (.systemError errno what)) k := Iff.rfl

theorem wp_call {Q : Outcome PosixError α → PosixState (PosixEvent P) PosixAnswer → Prop} {e : PosixEvent P}
    {f : PosixAnswer → Posixly P α} {a : PosixAnswer} (h : k.answers.head? = some a)
    (hQ : ∀ k', wp (f a) Q k') :
    wp (do
      Posix.record e
      f (← Posix.answer)) Q k := by
  obtain ⟨answers, hanswers⟩ := List.head?_eq_some_iff.mp h
  unfold Posix.answer Posix.record
  rw [wp_bind, wp_modify, Outcome.andThen_ok, wp_bind, wp_bind, wp_get, Outcome.andThen_ok, hanswers]
  exact hQ _

namespace Posix

theorem wp_transfers_bad {Q : Outcome PosixError (Except Nat Nat) → PosixState (PosixEvent P) PosixAnswer → Prop}
    {e : PosixEvent P} (h : BadDescriptor k) (hQ : ∀ k', Q (.ok (.error EBADF)) k') :
    wp (transfers e) Q k := wp_call h hQ

theorem wp_succeeds_bad {Q : Outcome PosixError (Except Nat Unit) → PosixState (PosixEvent P) PosixAnswer → Prop}
    {e : PosixEvent P} (h : BadDescriptor k) (hQ : ∀ k', Q (.ok (.error EBADF)) k') :
    wp (succeeds e) Q k := wp_call h hQ

theorem wp_accept4_bad {Q : Outcome PosixError (Except Nat Nat) → PosixState (PosixEvent P) PosixAnswer → Prop}
    {posix : P} {fd : Option Nat} {flags : Int} (h : BadDescriptor k)
    (hQ : ∀ k', Q (.ok (.error EBADF)) k') : wp (accept4 posix fd flags) Q k := wp_call h hQ

end Posix

namespace UnixSocket

theorem transferLoop_throws (h : BadDescriptor k) (e : PosixEvent P) (what : String) :
    ThrowsSystemError (transferLoop (Posix.transfers e) what) k := by
  rw [throwsSystemError_iff, transferLoop, wp_bind, wp_get, Outcome.andThen_ok, loop_succ, wp_bind, wp_bind]
  refine Posix.wp_transfers_bad h fun k' => ?_
  exact ⟨_, _, rfl⟩

theorem transfer_throws {x : UnixSocket P} {posix : P} (hposix : x.fileDescriptor.posixPointer = some posix)
    (h : BadDescriptor k) {buffers : List ByteSpan} (hne : buffers ≠ [])
    (call : P → List Iovec → PosixEvent P) (what : String) :
    ThrowsSystemError (do
      let iovecs ← ofExcept (makeIovecs buffers)
      if iovecs = [] then return 0
      else do
        let posix ← x.facade
        transferLoop (Posix.transfers (call posix iovecs)) what) k := by
  rcases makeIovecs_eq buffers with ⟨-, what', herror⟩ | ⟨-, -, hok⟩
  · rw [herror]
    exact ⟨_, _, rfl⟩
  · have hiovecs : iovecs buffers ≠ [] := by simpa [iovecs] using hne
    rw [hok, throwsSystemError_iff]
    simp only [ofExcept, facade, hposix, wp_bind, wp_pure, Outcome.andThen_ok, if_neg hiovecs]
    exact transferLoop_throws h _ _

theorem shutdown_throws {x : UnixSocket P} {posix : P} (hposix : x.fileDescriptor.posixPointer = some posix)
    (h : BadDescriptor k) {how : Shutdown} (hhow : how.IsDirection) : ThrowsSystemError (x.shutdown how) k := by
  rw [throwsSystemError_iff]
  cases how with
  | receive | send | both =>
    simp only [shutdown, shutdownDirection, facade, hposix, wp_bind, wp_pure, Outcome.andThen_ok]
    exact Posix.wp_succeeds_bad h fun k' => ⟨_, _, rfl⟩
  | other value => exact hhow.elim

theorem failsCleanly_iff (x : UnixSocket P) : x.FailsCleanly ↔ x.fileDescriptor.posixPointer.isSome := by
  refine ⟨fun h => ?_, fun h k hk => ?_⟩
  · cases hposix : x.fileDescriptor.posixPointer with
    | some posix => rfl
    | none =>
      -- the facade is used before any answer is looked at
      obtain ⟨errno, what, hthrow⟩ := (h ⟨[], [.fails Posix.EBADF]⟩ rfl).2 .both trivial
      rw [shutdown, facade, hposix] at hthrow
      cases hthrow
  · obtain ⟨posix, hposix⟩ := Option.isSome_iff_exists.mp h
    exact ⟨fun buffers hne => ⟨transfer_throws hposix hk hne _ _, transfer_throws hposix hk hne _ _⟩,
      fun how => shutdown_throws hposix hk⟩

end UnixSocket

theorem UnixSocketListener.failsCleanly_iff (x : UnixSocketListener P) :
    x.FailsCleanly ↔ x.posixPointer.isSome := by
  refine ⟨fun h => ?_, fun h k hk flags => ?_⟩
  · cases hposix : x.posixPointer with
    | some posix => rfl
    | none =>
      obtain ⟨errno, what, hthrow⟩ := h ⟨[], [.fails Posix.EBADF]⟩ rfl 0
      rw [accept, hposix] at hthrow
      cases hthrow
  · obtain ⟨posix, hposix⟩ := Option.isSome_iff_exists.mp h
    rw [throwsSystemError_iff, accept, hposix, wp_bind, acceptLoop, wp_bind, wp_get, Outcome.andThen_ok,
      loop_succ, wp_bind, wp_bind]
    exact Posix.wp_accept4_bad hk fun k' => ⟨_, _, rfl⟩

theorem Wrapper.facade_of_open {x : Wrapper P} (h : x.isOpen) : x.posixFacade.isSome := by
  cases x with
  | descriptor x => exact x.hposix h
  | socket x => exact x.fileDescriptor.hposix h
  | listener x => exact x.hopen h

theorem Wrapper.failsCleanly_iff {x : Wrapper P} (h : x.IsSocket) :
    x.FailsCleanly ↔ x.posixFacade.isSome := by
  cases x with
  | descriptor x => exact h.elim
  | socket x => exact x.failsCleanly_iff
  | listener x => exact x.failsCleanly_iff

end

/-! ### What the functions make of the facade -/

/-- What `m` returns is in `B`, and it throws only if `E`. -/
def Gives (E : Prop) (m : Posixly P α) (B : α → Prop) : Prop :=
  Triple (fun _ => True) m (fun a _ => B a) fun _ => E

section
variable {B : α → Prop} {E : Prop}

theorem Gives.pure {a : α} (h : B a) : Gives E (Pure.pure a : Posixly P α) B := Triple.pure fun _ _ => h

theorem Gives.throw (e : PosixError) : Gives True (Proc.throw e : Posixly P α) B :=
  Triple.throw fun _ _ => trivial

theorem Gives.stop (r : Stop) : Gives E (Proc.stop r : Posixly P α) B := Triple.stop r

theorem Gives.record (e : PosixEvent P) : Gives E (Posix.record e) fun _ => True :=
  Triple.modify fun _ h => h

theorem Gives.bind {C : β → Prop} {m : Posixly P β} {f : β → Posixly P α} (hm : Gives E m C)
    (hf : ∀ b, C b → Gives E (f b) B) : Gives E (m >>= f) B :=
  Triple.bind hm fun b k hb => hf b hb k trivial

/-- Of anything it can be said that it is true of what it returns. -/
theorem gives_true (m : Posixly P α) : Gives True m fun _ => True := by
  intro k _
  unfold wp
  rcases m k with ⟨a | e | r, k'⟩ <;> trivial

theorem Gives.after {m : Posixly P β} {f : β → Posixly P α} (hf : ∀ b, Gives True (f b) B) :
    Gives True (m >>= f) B :=
  (gives_true m).bind fun b _ => hf b

end

theorem OwnedFileDescriptor.adopt_gives (fd : Int) (posix : P) :
    Gives True (OwnedFileDescriptor.adoptNativeHandle fd posix) fun x => x.posixPointer.isSome := by
  unfold OwnedFileDescriptor.adoptNativeHandle
  split_ifs
  · exact .throw _
  · exact .pure rfl

theorem UnixSocket.connect_gives (path : ByteString) (posix : P) :
    Gives True (UnixSocket.connect path posix) fun x => x.fileDescriptor.posixPointer.isSome := by
  have hcreate : Gives True (createSocket posix) fun x => x.posixPointer.isSome := by
    refine .after fun r => ?_
    cases r with
    | ok fd => exact OwnedFileDescriptor.adopt_gives fd posix
    | error errno => exact .throw _
  exact .after fun _ => hcreate.bind fun x hx => .after fun _ => .after fun _ => .pure hx

theorem UnixSocket.adopt_gives (x : OwnedFileDescriptor P) :
    Gives True (UnixSocket.adoptNativeHandle x) fun y => y.fileDescriptor.posixPointer.isSome := by
  have hopen : Gives True (x.holding (
      if h : x.isOpen then UnixSocket.checkUnixStreamSocket x.fileDescriptor (x.posixFacade h)
      else Proc.throw (.systemError Posix.EBADF (str "adopt closed socket")))) fun _ => x.isOpen := by
    by_cases h : x.isOpen
    · exact (gives_true _).mono (fun _ h => h) (fun _ _ _ => h) fun _ h => h
    · rw [dif_neg h]
      exact .catching (.throw fun _ h => h) fun e => Gives.after fun _ => .throw _
  exact hopen.bind fun _ h => .after fun _ => .pure (x.hposix h)

theorem UnixSocketListener.bind_gives (path : ByteString) (posix : P) (backlog : Int) :
    Gives True (UnixSocketListener.bind path posix backlog) fun x => x.posixPointer.isSome :=
  .after fun _ => .after fun _ => .after fun _ => .after fun _ => .pure rfl

theorem UnixSocketListener.accept_gives (x : UnixSocketListener P) (flags : Int) :
    Gives True (x.accept flags) fun y => y.fileDescriptor.posixPointer.isSome := by
  unfold UnixSocketListener.accept
  cases x.posixPointer with
  | none => exact .stop _
  | some posix => exact .after fun _ => .after fun y => UnixSocket.adopt_gives y

/-- What is a socket stays one, and keeps its facade. -/
def Wrapper.Alike (x y : Wrapper P) : Prop :=
  (y.IsSocket ↔ x.IsSocket) ∧ (x.IsSocket → y.posixFacade = x.posixFacade)

theorem Wrapper.close_gives (x : Wrapper P) : Gives True x.close fun y => x.Alike y := by
  cases x with
  | descriptor x | listener x => exact .after fun _ => .pure ⟨Iff.rfl, fun _ => rfl⟩
  | socket x =>
    have hclose : Gives True x.close fun y => y.fileDescriptor.posixPointer = x.fileDescriptor.posixPointer :=
      .after fun _ => .pure rfl
    exact hclose.bind fun y hy => .pure ⟨Iff.rfl, fun _ => hy⟩

theorem Wrapper.release_gives (x : Wrapper P) :
    Gives True x.release fun r => x.Alike r.1 ∧ ∀ y ∈ r.2, ¬y.IsSocket := by
  cases x with
  | descriptor x => exact .after fun _ => .pure ⟨⟨Iff.rfl, fun _ => rfl⟩, by simp⟩
  | socket x =>
    refine .bind (C := fun r => r.2.fileDescriptor.posixPointer = x.fileDescriptor.posixPointer) ?_
      fun r hr => .pure ⟨⟨Iff.rfl, fun _ => hr⟩, by simp [IsSocket]⟩
    unfold UnixSocket.releaseNativeHandle
    split_ifs
    · exact .after fun _ => .pure rfl
    · exact .pure rfl
  | listener x =>
    refine .bind (C := fun r => r.2.posixPointer = x.posixPointer) ?_
      fun r hr => .pure ⟨⟨Iff.rfl, fun _ => hr⟩, by simp [IsSocket]⟩
    refine .after fun _ => ?_
    split_ifs
    · exact .after fun _ => .pure rfl
    · exact .pure rfl

/-- A move takes everything along. -/
theorem Wrapper.moveConstruct_alike (x : Wrapper P) :
    x.Alike x.moveConstruct.1 ∧ x.moveConstruct.2.posixFacade = none := by
  cases x <;> exact ⟨⟨Iff.rfl, fun _ => rfl⟩, rfl⟩

theorem OwnedFileDescriptor.close_givesOnly (x : OwnedFileDescriptor P) : Gives False x.close fun _ => True := by
  unfold OwnedFileDescriptor.close
  split_ifs
  · exact .record _
  · exact .pure trivial

theorem UnixSocketListener.close_givesOnly (x : UnixSocketListener P) :
    Gives False x.close fun _ => True := by
  refine x.fileDescriptor.close_givesOnly.bind fun _ _ => ?_
  unfold UnixSocketListener.unlinkPath UnixSocketListener.unlinkSocketPath
  split_ifs
  · exact .record _
  · exact .pure trivial

theorem OwnedFileDescriptor.moveAssign_givesOnly (x y : OwnedFileDescriptor P) :
    Gives False (x.moveAssign y) (· = y.moveConstruct) :=
  x.close_givesOnly.bind fun _ _ => .pure rfl

theorem Wrapper.moveAssign_givesOnly (x y : Wrapper P) :
    Gives False (x.moveAssign y) fun r => y.Alike r.1 ∧ r.2.posixFacade = none := by
  cases x with
  | descriptor x =>
    cases y with
    | descriptor y =>
      refine (x.moveAssign_givesOnly y).bind ?_
      rintro _ rfl
      exact .pure ⟨⟨Iff.rfl, fun _ => rfl⟩, rfl⟩
    | _ => exact Triple.stop _
  | socket x =>
    cases y with
    | socket y =>
      refine .bind (C := (· = y.moveConstruct))
        ((x.fileDescriptor.moveAssign_givesOnly y.fileDescriptor).bind ?_) ?_
      · rintro _ rfl
        exact .pure rfl
      · rintro _ rfl
        exact .pure ⟨⟨Iff.rfl, fun _ => rfl⟩, rfl⟩
    | _ => exact Triple.stop _
  | listener x =>
    cases y with
    | listener y =>
      refine .bind (C := (· = y.moveConstruct)) (x.close_givesOnly.bind fun _ _ => ?_) ?_
      · exact (x.emptied.fileDescriptor.moveAssign_givesOnly y.fileDescriptor).bind fun _ _ => .pure rfl
      · rintro _ rfl
        exact .pure ⟨⟨Iff.rfl, fun _ => rfl⟩, rfl⟩
    | _ => exact Triple.stop _

/-! ### Which objects have a facade -/

/-- The sockets without a facade are those that were moved from. -/
structure Facades (moved : List Nat) (objects : List (Option (Wrapper P))) : Prop where
  lt : ∀ o ∈ moved, o < objects.length
  facade : ∀ o x, objects[o]? = some (some x) → x.IsSocket → (x.posixFacade.isSome ↔ o ∉ moved)

namespace Facades
variable {moved moved' : List Nat} {objects : List (Option (Wrapper P))} {o : Nat} {x y : Wrapper P}

theorem snoc (h : Facades moved objects) (hsame : ∀ o < objects.length, o ∈ moved' ↔ o ∈ moved)
    (hlt : ∀ o ∈ moved', o ≤ objects.length)
    (hx : x.IsSocket → (x.posixFacade.isSome ↔ objects.length ∉ moved')) :
    Facades moved' (objects ++ [some x]) where
  lt o ho := by
    rw [List.length_append]
    exact Nat.lt_succ_of_le (hlt o ho)
  facade o y hy hsocket := by
    rcases Nat.lt_trichotomy o objects.length with ho | rfl | ho
    · rw [List.getElem?_append_left ho] at hy
      rw [hsame o ho]
      exact h.facade o y hy hsocket
    · obtain rfl : x = y := by simpa using hy
      exact hx hsocket
    · rw [List.getElem?_append_right (Nat.le_of_lt ho), List.getElem?_eq_none (by simp; omega)] at hy
      cases hy

theorem set (h : Facades moved objects) (ho : o < objects.length)
    (hsame : ∀ o', o' ≠ o → (o' ∈ moved' ↔ o' ∈ moved)) {left : Option (Wrapper P)}
    (hleft : ∀ y ∈ left, y.IsSocket → (y.posixFacade.isSome ↔ o ∉ moved')) :
    Facades moved' (objects.set o left) where
  lt o' ho' := by
    rw [List.length_set]
    by_cases hne : o' = o
    · exact hne ▸ ho
    · exact h.lt o' ((hsame o' hne).mp ho')
  facade o' y hy hsocket := by
    by_cases hne : o' = o
    · subst hne
      rw [List.getElem?_set_self ho] at hy
      exact hleft y (Option.some.inj hy) hsocket
    · rw [List.getElem?_set_ne (Ne.symm hne)] at hy
      rw [hsame o' hne]
      exact h.facade o' y hy hsocket

theorem lt_of_some (hx : objects[o]? = some (some x)) : o < objects.length :=
  (List.getElem?_eq_some_iff.mp hx).1

theorem create (h : Facades moved objects) (hx : x.IsSocket → x.posixFacade.isSome) :
    Facades moved (objects ++ [some x]) := by
  have hnew : objects.length ∉ moved := fun hmem => absurd (h.lt _ hmem) (Nat.lt_irrefl _)
  exact h.snoc (fun _ _ => Iff.rfl) (fun o ho => Nat.le_of_lt (h.lt o ho))
    fun hsocket => iff_of_true (hx hsocket) hnew

theorem alike (h : Facades moved objects) (hx : objects[o]? = some (some x)) {left : Option (Wrapper P)}
    (hleft : ∀ y ∈ left, x.Alike y) : Facades moved (objects.set o left) := by
  refine h.set (lt_of_some hx) (fun _ _ => Iff.rfl) fun y hy hsocket => ?_
  obtain ⟨hkind, hfacade⟩ := hleft y hy
  rw [hfacade (hkind.mp hsocket)]
  exact h.facade o x hx (hkind.mp hsocket)

theorem moveConstruct (h : Facades moved objects) (hx : objects[o]? = some (some x))
    (hnew : x.Alike y) {left : Wrapper P} (hleft : left.posixFacade = none) :
    Facades (o :: if o ∈ moved then objects.length :: moved else moved)
      (objects.set o (some left) ++ [some y]) := by
  have ho := lt_of_some hx
  have hset : Facades (o :: moved) (objects.set o (some left)) := by
    refine h.set ho (fun o' hne => by simp [hne]) fun z hz _ => ?_
    obtain rfl : left = z := Option.some.inj hz
    simp [hleft]
  refine hset.snoc (fun o' ho' => ?_) (fun o' ho' => ?_) fun hsocket => ?_
  · rw [List.length_set] at ho'
    split_ifs <;> simp [ho'.ne]
  · rw [List.length_set]
    have hle : ∀ o' ∈ moved, o' ≤ objects.length := fun o' ho' => Nat.le_of_lt (h.lt o' ho')
    rcases List.mem_cons.mp ho' with rfl | ho'
    · exact Nat.le_of_lt ho
    · split_ifs at ho'
      · rcases List.mem_cons.mp ho' with rfl | ho'
        · exact Nat.le_refl _
        · exact hle o' ho'
      · exact hle o' ho'
  · have hnotin : objects.length ∉ moved := fun hmem => absurd (h.lt _ hmem) (Nat.lt_irrefl _)
    rw [List.length_set, hnew.2 (hnew.1.mp hsocket), h.facade o x hx (hnew.1.mp hsocket)]
    split_ifs with hmoved <;> simp [hmoved, ho.ne', hnotin]

theorem moveAssign (h : Facades moved objects) {target source : Nat}
    (hx : objects[target]? = some (some x)) (hy : objects[source]? = some (some y)) {x' y' : Wrapper P}
    (hnew : y.Alike x') (hleft : y'.posixFacade = none) :
    Facades (source :: if source ∈ moved then target :: moved else moved.filter (· ≠ target))
      ((objects.set target (some x')).set source (some y')) := by
  have hset : Facades (if source ∈ moved then target :: moved else moved.filter (· ≠ target))
      (objects.set target (some x')) := by
    refine h.set (lt_of_some hx) (fun o' ho' => ?_) fun z hz hsocket => ?_
    · split_ifs <;> simp [ho']
    · obtain rfl : x' = z := Option.some.inj hz
      rw [hnew.2 (hnew.1.mp hsocket), h.facade source y hy (hnew.1.mp hsocket)]
      split_ifs with hmoved <;> simp [hmoved]
  have hlt : source < (objects.set target (some x')).length := by
    rw [List.length_set]
    exact lt_of_some hy
  refine hset.set hlt (fun o' ho' => by simp [ho']) fun z hz _ => ?_
  obtain rfl : y' = z := Option.some.inj hz
  simp [hleft]

end Facades

namespace SocketWorld
variable {moved : List Nat}

/-- Which objects of the world have a facade. -/
def Knows (moved : List Nat) (w : SocketWorld P) : Prop := Facades moved w.objects

theorem create_knows {x : Wrapper P} (hx : x.IsSocket → x.posixFacade.isSome) {C : SocketWorld P → Prop} :
    Triple (Knows moved) (create x) (fun _ => Knows moved) C :=
  .modify fun _ h => h.create hx

theorem onPosix_knows {m : Posixly P α} {B : α → Prop} (hm : Gives True m B) :
    Triple (Knows moved) (onPosix m) (fun a w => B a ∧ Knows moved w) (Knows moved) := by
  intro w hw
  refine Proc.Returns.mono (wp_onPosix (hm w.posix trivial)) ?_ ?_
  · rintro a w' ⟨hobjects, ha⟩
    exact ⟨ha, by rwa [Knows, hobjects]⟩
  · rintro w' ⟨hobjects, -⟩
    rwa [Knows, hobjects]

theorem onObject_knows {f : Wrapper P → Posixly P (Option (Wrapper P) × α)} {A : α → Prop}
    (hf : ∀ x, Gives True (f x) fun r => (∀ y ∈ r.1, x.Alike y) ∧ A r.2) (o : Nat) :
    Triple (Knows moved) (onObject o f) (fun a w => A a ∧ Knows moved w) (Knows moved) := by
  refine fun w hw => wp_onObject fun x hx => Proc.Returns.mono (hf x w.posix trivial) ?_ fun _ _ => hw
  rintro ⟨left, a⟩ k ⟨hleft, ha⟩
  exact ⟨ha, hw.alike hx hleft⟩

theorem run_knows {op : SocketOp P} (hconstruct : ∀ o, op ≠ .moveConstruct o)
    (hassign : ∀ target source, op ≠ .moveAssign target source) :
    Triple (Knows moved) op.run (fun _ => Knows moved) (Knows moved) := by
  cases op with
  | makeEmpty posix => exact create_knows False.elim
  | adopt fd posix =>
    exact (onPosix_knows (gives_true _)).bind fun x => .of_and fun _ => create_knows False.elim
  | connect path posix =>
    exact (onPosix_knows (UnixSocket.connect_gives path posix)).bind fun x => .of_and fun hx =>
      create_knows (x := .socket x) fun _ => hx
  | bind path posix backlog =>
    exact (onPosix_knows (UnixSocketListener.bind_gives path posix backlog)).bind fun x =>
      .of_and fun hx => create_knows (x := .listener x) fun _ => hx
  | accept o flags =>
    refine (onObject_knows (A := fun _ => True) (fun x => ?_) o).bind fun x => .of_and fun _ => ?_
    · cases x with
      | listener x =>
        refine .pure ⟨?_, trivial⟩
        rintro _ ⟨⟩
        exact ⟨Iff.rfl, fun _ => rfl⟩
      | _ => exact .stop _
    · exact (onPosix_knows (x.accept_gives flags)).bind fun y => .of_and fun hy =>
        create_knows (x := .socket y) fun _ => hy
  | adoptSocket o =>
    refine (onObject_knows (A := fun _ => True) (fun x => ?_) o).bind fun x => .of_and fun _ => ?_
    · cases x with
      | descriptor x =>
        refine .pure ⟨?_, trivial⟩
        rintro _ ⟨⟩
        exact ⟨Iff.rfl, False.elim⟩
      | _ => exact .stop _
    · exact (onPosix_knows (UnixSocket.adopt_gives x)).bind fun y => .of_and fun hy =>
        create_knows (x := .socket y) fun _ => hy
  | moveConstruct o => exact absurd rfl (hconstruct o)
  | moveAssign target source => exact absurd rfl (hassign target source)
  | close o =>
    refine (onObject_knows (A := fun _ => True) (fun x => ?_) o).mono (fun _ h => h) (fun _ _ h => h.2)
      fun _ h => h
    refine x.close_gives.bind fun y hy => .pure ⟨?_, trivial⟩
    rintro _ ⟨⟩
    exact hy
  | release o =>
    refine (onObject_knows (A := fun r => ∀ y ∈ r, ¬y.IsSocket) (fun x => ?_) o).bind fun r =>
      .of_and fun hr => ?_
    · refine x.release_gives.bind fun r hr => .pure ⟨?_, hr.2⟩
      rintro _ ⟨⟩
      exact hr.1
    · cases r with
      | none => exact .pure fun _ h => h
      | some y => exact create_knows fun hy => absurd hy (hr y rfl)
  | destroy o =>
    refine (onObject_knows (A := fun _ => True) (fun x => ?_) o).mono (fun _ h => h) (fun _ _ h => h.2)
      fun _ h => h
    exact .after fun _ => .pure ⟨by simp, trivial⟩

/-- One operation: what is without a facade afterwards was moved from. -/
theorem run_facades (op : SocketOp P) {w : SocketWorld P} (h : Knows moved w) :
    wp op.run (Proc.Returns (fun _ => Knows (op.movedFrom w moved)) (Knows (op.movedFrom w moved))) w := by
  cases op with
  | moveConstruct o =>
    refine Proc.Returns.bind (Q := fun y w' => ∃ x left, w.objects[o]? = some (some x) ∧ x.Alike y ∧
      left.posixFacade = none ∧ w'.objects = w.objects.set o (some left)) ?_ ?_
    · refine wp_onObject fun x hx => ?_
      obtain ⟨halike, hleft⟩ := x.moveConstruct_alike
      exact ⟨x, _, hx, halike, hleft, rfl⟩
    · rintro y w' ⟨x, left, hx, halike, hleft, hobjects⟩
      show Facades _ (w'.objects ++ [some y])
      rw [hobjects]
      exact h.moveConstruct hx halike hleft
  | moveAssign target source =>
    by_cases hne : target = source
    · show wp (if target ≠ source then _ else _) _ w
      rw [if_neg (not_not.mpr hne)]
      show Facades (if _ then _ else _) _
      rw [if_pos hne]
      exact h
    · show wp (if target ≠ source then _ else _) _ w
      rw [if_pos hne]
      refine wp_onObjects fun x y hx hy =>
        Proc.Returns.mono (x.moveAssign_givesOnly y w.posix trivial) ?_ fun _ => False.elim
      rintro ⟨x', y'⟩ k ⟨halike, hleft⟩
      show Facades (if _ then _ else _) _
      rw [if_neg hne]
      exact h.moveAssign hx hy halike hleft
  | _ => exact run_knows (by simp) (by simp) w h

theorem after_facades {ops : List (SocketOp P)} {w w' : SocketWorld P} (hw : Knows moved w)
    (h : w.after ops = some w') : Knows (w.movedFrom moved ops) w' := by
  induction ops generalizing w moved with
  | nil =>
    obtain rfl : w = w' := by simpa [after] using h
    exact hw
  | cons op ops ih =>
    have hrun := run_facades op hw
    unfold after at h
    unfold wp at hrun
    show Knows ((op.run w).2.movedFrom (op.movedFrom w moved) ops) w'
    rcases hop : op.run w with ⟨u | e | r, w₁⟩ <;> rw [hop] at h hrun
    · exact ih hrun h
    · exact ih hrun h
    · cases h

end SocketWorld

/-- In every run: a socket or listener fails cleanly whenever it is closed, if and only if it is not one
that was moved from. -/
theorem closedSocket_fails_iff (answers : List PosixAnswer) (ops : List (SocketOp P)) (w : SocketWorld P)
    (h : (SocketWorld.start answers).after ops = some w) (o : Nat) (x : Wrapper P)
    (hx : w.objects[o]? = some (some x)) (hsocket : x.IsSocket) :
    (x.isOpen = false → x.FailsCleanly) ↔ o ∉ (SocketWorld.start answers).movedFrom [] ops := by
  have hstart : SocketWorld.Knows [] (SocketWorld.start (P := P) answers) := ⟨by simp, by
    intro o x hx
    cases hx⟩
  have hknows := SocketWorld.after_facades hstart h
  rw [← hknows.facade o x hx hsocket, x.failsCleanly_iff hsocket]
  refine ⟨fun hclosed => ?_, fun hfacade _ => hfacade⟩
  cases hopen : x.isOpen with
  | false => exact hclosed hopen
  | true => exact x.facade_of_open hopen

/-- A closed socket fails with a `system_error`. -/
theorem closedSocket_fails_iff_close : ∃ (w : SocketWorld Unit) (x : Wrapper Unit),
    (SocketWorld.start [.descriptor 3, .done]).after [.connect (str "/s") (), .close 0] = some w ∧
      w.objects[0]? = some (some x) ∧ x.isOpen = false ∧ x.FailsCleanly :=
  ⟨_, _, rfl, rfl, rfl, (closedSocket_fails_iff [.descriptor 3, .done] [.connect (str "/s") (), .close 0] _ rfl
    0 _ rfl trivial).mpr (by decide) rfl⟩

/-- A socket that was moved from is closed, and calls through a null facade. -/
theorem movedFrom_fails : ¬∀ (answers : List PosixAnswer) (ops : List (SocketOp Unit)) (w : SocketWorld Unit)
    (o : Nat) (x : Wrapper Unit), (SocketWorld.start answers).after ops = some w →
    w.objects[o]? = some (some x) → x.IsSocket → x.isOpen = false → x.FailsCleanly := by
  intro hall
  have hcleanly := hall [.descriptor 3, .done] [.connect (str "/s") (), .moveConstruct 0] _ 0 _ rfl rfl trivial rfl
  exact absurd ((Wrapper.failsCleanly_iff (x := .socket ⟨.empty none⟩) trivial).mp hcleanly) (by decide)

end UdfRunner
