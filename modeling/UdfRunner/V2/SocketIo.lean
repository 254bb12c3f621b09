import Mathlib.Algebra.GroupWithZero.Nat
import UdfRunner.V2.SocketLibrary

/-!
# Reading, writing and shutting down (`unix_socket.cc`)

`make_iovecs` adds the sizes up in 64 bits. `makeIovecs_exact`: it refuses exactly the lists whose number
of buffers or true sum is too large, without ever wrapping, and `readv` and `sendmsg` get the whole list.
-/

namespace UdfRunner
open Proc

variable {P : Type}

/-- `std::span<std::byte>`. -/
structure ByteSpan where
  data : UInt64
  size : UInt64
deriving DecidableEq, Repr

/-- `other` is a value that is none of the enumerators. -/
inductive Shutdown
  | receive
  | send
  | both
  | other (value : Int)
deriving DecidableEq, Repr

namespace Posix

def EINVAL : Nat := 22
def IOV_MAX : Nat := 1024
def SHUT_RD : Nat := 0
def SHUT_WR : Nat := 1
def SHUT_RDWR : Nat := 2
def MSG_NOSIGNAL : Nat := 0x4000

/-- `std::numeric_limits<ssize_t>::max()` as a `size_t`. -/
def ssizeMax : UInt64 := 0x7FFFFFFFFFFFFFFF

def intMax : Nat := 2 ^ 31 - 1

/-- `static_cast<int>` of a `size_t`. -/
def toInt32 (n : Nat) : Int := Int.bmod n (2 ^ 32)

/-- A call that returns a number of bytes. -/
def transfers (e : PosixEvent P) : Posixly P (Except Nat Nat) := do
  record e
  match ← answer with
  | .fails errno => return .error errno
  | .value v => if 0 ≤ v then return .ok v.toNat else stop .undefined
  | _ => stop .undefined

def readv (posix : P) (fd : Option Nat) (buffers : List Iovec) (bufferCount : Int) :
    Posixly P (Except Nat Nat) :=
  transfers (.readv posix fd buffers bufferCount)

def sendmsg (posix : P) (fd : Option Nat) (buffers : List Iovec) (bufferCount : UInt64) (flags : Nat) :
    Posixly P (Except Nat Nat) :=
  transfers (.sendmsg posix fd buffers bufferCount flags)

def shutdown (posix : P) (fd : Option Nat) (how : Nat) : Posixly P (Except Nat Unit) :=
  succeeds (.shutdown posix fd how)

end Posix

namespace UnixSocket

def iovecLoop (totalSize : UInt64) (iovecs : List Iovec) :
    List ByteSpan → Except PosixError (UInt64 × List Iovec)
  | [] => .ok (totalSize, iovecs)
  | buffer :: buffers =>
    if Posix.ssizeMax - totalSize < buffer.size then
      .error (.systemError Posix.EINVAL (str "I/O buffer size is too large"))
    else iovecLoop (totalSize + buffer.size) (iovecs ++ [⟨buffer.data, buffer.size⟩]) buffers

def makeIovecs (buffers : List ByteSpan) : Except PosixError (List Iovec) :=
  if Posix.IOV_MAX < buffers.length then
    .error (.systemError Posix.EINVAL (str "too many I/O buffers"))
  else (iovecLoop 0 [] buffers).map Prod.snd

def ofExcept {α : Type} : Except PosixError α → Posixly P α
  | .ok a => return a
  | .error e => throw e

def shutdownDirection : Shutdown → Posixly P Nat
  | .receive => return Posix.SHUT_RD
  | .send => return Posix.SHUT_WR
  | .both => return Posix.SHUT_RDWR
  | .other _ => throw (.logicError (str "invalid socket shutdown direction"))

/-- `posix_facade()->`: a moved-from socket has no facade to call. -/
def facade (this : UnixSocket P) : Posixly P P :=
  match this.fileDescriptor.posixPointer with
  | none => stop .undefined
  | some posix => return posix

def shutdown (this : UnixSocket P) (how : Shutdown) : Posixly P Unit := do
  let posix ← this.facade
  let direction ← shutdownDirection how
  match ← Posix.shutdown posix this.fileDescriptor.fileDescriptor direction with
  | .error errno => throw (.systemError errno (str "shutdown Unix socket"))
  | .ok () => return ()

/-- The `do while` of `read_some` and `write_some`: an interrupted call is made again. -/
def transferLoop (call : Posixly P (Except Nat Nat)) (what : String) : Posixly P Nat := do
  let k ← get
  loop (fun _ : Unit => do
    match ← call with
    | .ok n => return .inr n
    | .error errno =>
      if errno = Posix.EINTR then return .inl ()
      else throw (.systemError errno (str what))) (k.answers.length + 1) ()

def readSome (this : UnixSocket P) (buffers : List ByteSpan) : Posixly P Nat := do
  let iovecs ← ofExcept (makeIovecs buffers)
  if iovecs = [] then return 0
  else do
    let posix ← this.facade
    transferLoop (Posix.readv posix this.fileDescriptor.fileDescriptor iovecs
      (Posix.toInt32 iovecs.length)) "read from Unix socket"

def writeSome (this : UnixSocket P) (buffers : List ByteSpan) : Posixly P Nat := do
  let iovecs ← ofExcept (makeIovecs buffers)
  if iovecs = [] then return 0
  else do
    let posix ← this.facade
    transferLoop (Posix.sendmsg posix this.fileDescriptor.fileDescriptor iovecs
      (UInt64.ofNat iovecs.length) Posix.MSG_NOSIGNAL) "write to Unix socket"

/-! ### The sizes -/

def totalSize (buffers : List ByteSpan) : Nat := (buffers.map fun b => b.size.toNat).sum

def iovecs (buffers : List ByteSpan) : List Iovec := buffers.map fun b => ⟨b.data, b.size⟩

theorem ssizeMax_toNat : Posix.ssizeMax.toNat = 2 ^ 63 - 1 := rfl

/-- The test and the addition of a round are those of the numbers. -/
theorem ssizeMax_sub_toNat {total : UInt64} (h : total.toNat ≤ Posix.ssizeMax.toNat) :
    (Posix.ssizeMax - total).toNat = Posix.ssizeMax.toNat - total.toNat :=
  UInt64.toNat_sub_of_le _ _ (UInt64.le_iff_toNat_le.mpr h)

theorem add_toNat {total size : UInt64} (h : total.toNat + size.toNat ≤ Posix.ssizeMax.toNat) :
    (total + size).toNat = total.toNat + size.toNat := by
  rw [UInt64.toNat_add, Nat.mod_eq_of_lt]
  rw [ssizeMax_toNat] at h
  omega

/-- The total is the true sum so far, and at most `ssizeMax`: this carries over to the next buffer. -/
theorem iovecLoop_eq (total : UInt64) (done : List Iovec) (buffers : List ByteSpan)
    (h : total.toNat ≤ Posix.ssizeMax.toNat) :
    (Posix.ssizeMax.toNat < total.toNat + totalSize buffers ∧ iovecLoop total done buffers =
        .error (.systemError Posix.EINVAL (str "I/O buffer size is too large"))) ∨
      ∃ total', total'.toNat = total.toNat + totalSize buffers ∧ total'.toNat ≤ Posix.ssizeMax.toNat ∧
        iovecLoop total done buffers = .ok (total', done ++ iovecs buffers) := by
  induction buffers generalizing total done with
  | nil => exact .inr ⟨total, rfl, h, by simp [iovecLoop, iovecs]⟩
  | cons buffer buffers ih =>
    have hsum : totalSize (buffer :: buffers) = buffer.size.toNat + totalSize buffers := List.sum_cons
    have htest : Posix.ssizeMax - total < buffer.size ↔
        Posix.ssizeMax.toNat < total.toNat + buffer.size.toNat := by
      rw [UInt64.lt_iff_toNat_lt, ssizeMax_sub_toNat h]
      omega
    rw [iovecLoop, hsum]
    by_cases hlarge : Posix.ssizeMax - total < buffer.size
    · exact .inl ⟨by have := htest.mp hlarge; omega, if_pos hlarge⟩
    have hfits : total.toNat + buffer.size.toNat ≤ Posix.ssizeMax.toNat :=
      Nat.le_of_not_lt fun hlt => hlarge (htest.mpr hlt)
    have hadd := add_toNat hfits
    rw [if_neg hlarge]
    rcases ih (total + buffer.size) (done ++ [⟨buffer.data, buffer.size⟩]) (by omega)
      with ⟨hlt, herror⟩ | ⟨total', htotal, hle, hok⟩
    · exact .inl ⟨by omega, herror⟩
    · refine .inr ⟨total', by omega, hle, ?_⟩
      rw [hok, List.append_assoc]
      rfl

theorem makeIovecs_eq (buffers : List ByteSpan) :
    ((Posix.IOV_MAX < buffers.length ∨ Posix.ssizeMax.toNat < totalSize buffers) ∧
      ∃ what, makeIovecs buffers = .error (.systemError Posix.EINVAL what)) ∨
    (buffers.length ≤ Posix.IOV_MAX ∧ totalSize buffers ≤ Posix.ssizeMax.toNat ∧
      makeIovecs buffers = .ok (iovecs buffers)) := by
  unfold makeIovecs
  by_cases hcount : Posix.IOV_MAX < buffers.length
  · exact .inl ⟨.inl hcount, _, if_pos hcount⟩
  rw [if_neg hcount]
  rcases iovecLoop_eq 0 [] buffers (Nat.zero_le _)
    with ⟨hlt, herror⟩ | ⟨total, htotal, hle, hok⟩
  · refine .inl ⟨.inr ?_, _, by rw [herror]; rfl⟩
    simpa using hlt
  · refine .inr ⟨Nat.le_of_not_lt hcount, ?_, by rw [hok]; rfl⟩
    have : total.toNat = totalSize buffers := by simpa using htotal
    omega

/-- The `size_t` arithmetic of the round for `buffer` is that of the numbers. -/
def NoWrap (total : UInt64) (buffer : ByteSpan) : Prop :=
  (Posix.ssizeMax - total).toNat + total.toNat = Posix.ssizeMax.toNat ∧
    (¬Posix.ssizeMax - total < buffer.size →
      (total + buffer.size).toNat = total.toNat + buffer.size.toNat)

theorem noWrap_of_loop {front : List ByteSpan} {total : UInt64} {done : List Iovec}
    (h : iovecLoop 0 [] front = .ok (total, done)) (buffer : ByteSpan) : NoWrap total buffer := by
  have hle : total.toNat ≤ Posix.ssizeMax.toNat := by
    rcases iovecLoop_eq 0 [] front (Nat.zero_le _)
      with ⟨-, herror⟩ | ⟨total', -, hle, hok⟩
    · cases herror.symm.trans h
    · obtain ⟨rfl, -⟩ := Prod.mk.inj (Except.ok.inj (hok.symm.trans h))
      exact hle
  have hsub := ssizeMax_sub_toNat hle
  refine ⟨by omega, fun hfits => add_toNat ?_⟩
  rw [UInt64.lt_iff_toNat_lt, hsub] at hfits
  omega

/-! ### The calls -/

/-- A `readv` or `sendmsg` of the whole list, whose count is that of the list and an `int`. -/
def TransfersAll (buffers : List ByteSpan) : PosixEvent P → Prop
  | .readv _ _ passed count =>
    passed = iovecs buffers ∧ count = buffers.length ∧ buffers.length ≤ Posix.intMax
  | .sendmsg _ _ passed count _ =>
    passed = iovecs buffers ∧ count.toNat = buffers.length ∧ buffers.length ≤ Posix.intMax
  | _ => False

section
variable {Allowed : PosixEvent P → Prop}

theorem transfers_calls {e : PosixEvent P} (he : Allowed e) :
    Moves (Posix.Calls Allowed) (Posix.transfers e) := by
  refine .bind (Posix.record_calls he) fun _ => .bind Posix.answer_calls fun a => ?_
  cases a with
  | fails errno => exact .pure _
  | value v => exact .ite (.pure _) (.stop _)
  | done => exact .stop _
  | descriptor fd => exact .stop _

theorem transferLoop_calls {call : Posixly P (Except Nat Nat)} (hcall : Moves (Posix.Calls Allowed) call)
    (what : String) : Moves (Posix.Calls Allowed) (transferLoop call what) := by
  refine .bind .get fun k => .loop (fun _ => .bind hcall fun r => ?_) _ _
  cases r with
  | ok n => exact .pure _
  | error errno => exact .ite (.pure _) (.throw _)

theorem transfers_once (e : PosixEvent P) (k : PosixState (PosixEvent P) PosixAnswer) :
    wp (Posix.transfers e) (fun _ k' => k'.history = k.history ++ [e]) k := by
  unfold Posix.transfers Posix.record Posix.answer
  simp only [wp_bind, wp_modify, Outcome.andThen_ok, wp_get]
  cases k.answers with
  | nil => exact rfl
  | cons a answers =>
    simp only [wp_bind, wp_modify, Outcome.andThen_ok, wp_pure]
    cases a with
    | fails errno => exact rfl
    | value v =>
      rw [wp_ite]
      split_ifs <;> exact rfl
    | done => exact rfl
    | descriptor fd => exact rfl

/-- The call is made, and then only made again. -/
theorem transferLoop_history (e : PosixEvent P) (what : String) (k : PosixState (PosixEvent P) PosixAnswer) :
    wp (transferLoop (Posix.transfers e) what)
      (fun _ k' => ∃ again, k'.history = k.history ++ List.replicate (again + 1) e) k := by
  have hround : Moves (Posix.Calls (· = e)) (do
      match ← Posix.transfers e with
      | .ok n => return .inr n
      | .error errno =>
        if errno = Posix.EINTR then return .inl ()
        else throw (.systemError errno (str what)) : Posixly P (Unit ⊕ Nat)) := by
    refine .bind (transfers_calls rfl) fun r => ?_
    cases r with
    | ok n => exact .pure _
    | error errno => exact .ite (.pure _) (.throw _)
  have hend : ∀ k₁ k₂ : PosixState (PosixEvent P) PosixAnswer, k₁.history = k.history ++ [e] →
      Posix.Calls (· = e) k₁ k₂ → ∃ again, k₂.history = k.history ++ List.replicate (again + 1) e := by
    rintro k₁ k₂ hfirst ⟨calls, hcalls, hsame⟩
    refine ⟨calls.length, ?_⟩
    rw [hcalls, hfirst, List.append_assoc, List.replicate_succ, ← List.eq_replicate_of_mem hsame]
    rfl
  rw [transferLoop, wp_bind, wp_get, Outcome.andThen_ok, loop_succ, wp_bind, wp_bind]
  refine wp_mono (transfers_once e k) fun o k₁ hfirst => ?_
  have hstays := hend k₁ k₁ hfirst (refl_of _ k₁)
  rcases o with (errno | n) | error | r
  · rw [Outcome.andThen_ok, wp_ite]
    split_ifs
    · exact hend k₁ _ hfirst (Moves.loop (fun _ => hround) _ _ k₁)
    · exact hstays
  · exact hstays
  · exact hstays
  · exact hstays

theorem facade_calls (this : UnixSocket P) : Moves (Posix.Calls Allowed) this.facade := by
  unfold facade
  cases this.fileDescriptor.posixPointer with
  | none => exact .stop _
  | some posix => exact .pure _

theorem transfer_calls (this : UnixSocket P) {buffers : List ByteSpan}
    (call : P → List Iovec → Posixly P (Except Nat Nat)) (what : String)
    (hcall : buffers.length ≤ Posix.IOV_MAX → ∀ posix,
      Moves (Posix.Calls Allowed) (call posix (iovecs buffers))) :
    Moves (Posix.Calls Allowed) (do
      let iovecs ← ofExcept (makeIovecs buffers)
      if iovecs = [] then return 0
      else do
        let posix ← this.facade
        transferLoop (call posix iovecs) what) := by
  rcases makeIovecs_eq buffers with ⟨-, what', herror⟩ | ⟨hcount, -, hok⟩
  · rw [herror]
    exact fun k => refl_of (Posix.Calls Allowed) k
  · rw [hok]
    exact .ite (.pure _) (.bind this.facade_calls fun posix => transferLoop_calls (hcall hcount posix) what)

end

section
variable {n : Nat} (h : n ≤ Posix.IOV_MAX)
include h

theorem le_intMax : n ≤ Posix.intMax := by
  rw [Posix.IOV_MAX] at h
  rw [Posix.intMax]
  omega

theorem toInt32_eq : Posix.toInt32 n = n := by
  rw [Posix.IOV_MAX] at h
  exact Int.bmod_eq_of_le (by omega) (by omega)

theorem ofNat_toNat : (UInt64.ofNat n).toNat = n := by
  rw [Posix.IOV_MAX] at h
  exact Nat.mod_eq_of_lt (by omega)

end

theorem readSome_calls (this : UnixSocket P) (buffers : List ByteSpan) :
    Moves (Posix.Calls (TransfersAll buffers)) (this.readSome buffers) := by
  unfold readSome
  refine this.transfer_calls (fun posix iovecs => Posix.readv posix
    this.fileDescriptor.fileDescriptor iovecs (Posix.toInt32 iovecs.length)) _
    fun hcount posix => transfers_calls ⟨rfl, ?_, le_intMax hcount⟩
  rw [iovecs, List.length_map]
  exact toInt32_eq hcount

theorem writeSome_calls (this : UnixSocket P) (buffers : List ByteSpan) :
    Moves (Posix.Calls (TransfersAll buffers)) (this.writeSome buffers) := by
  unfold writeSome
  refine this.transfer_calls (fun posix iovecs => Posix.sendmsg posix
    this.fileDescriptor.fileDescriptor iovecs (UInt64.ofNat iovecs.length) Posix.MSG_NOSIGNAL) _
    fun hcount posix => transfers_calls ⟨rfl, ?_, le_intMax hcount⟩
  rw [iovecs, List.length_map]
  exact ofNat_toNat hcount

theorem transfer_history {this : UnixSocket P} {posix : P} (hposix : this.fileDescriptor.posixPointer = some posix)
    {buffers : List ByteSpan} (hne : buffers ≠ [])
    (hfits : ¬(Posix.IOV_MAX < buffers.length ∨ Posix.ssizeMax.toNat < totalSize buffers))
    (call : P → List Iovec → PosixEvent P) (what : String) (k : PosixState (PosixEvent P) PosixAnswer) :
    wp (do
      let iovecs ← ofExcept (makeIovecs buffers)
      if iovecs = [] then return 0
      else do
        let posix ← this.facade
        transferLoop (Posix.transfers (call posix iovecs)) what)
      (fun _ k' => ∃ again, k'.history = k.history ++ List.replicate (again + 1) (call posix (iovecs buffers))) k := by
  rcases makeIovecs_eq buffers with ⟨h, -⟩ | ⟨-, -, hok⟩
  · exact absurd h hfits
  · have hiovecs : iovecs buffers ≠ [] := by simpa [iovecs] using hne
    rw [hok]
    simp only [ofExcept, facade, hposix, wp_bind, wp_pure, Outcome.andThen_ok, if_neg hiovecs]
    exact transferLoop_history _ _ k

/-- For every list of buffers: it is refused exactly if it has too many of them or their true sum is too
large, no round of the loop wraps, and else the list is passed on whole, with the same sum. A list that is not
empty is passed on at once, and only again after an interruption. -/
theorem makeIovecs_exact (buffers : List ByteSpan) :
    ((∃ what, makeIovecs buffers = .error (.systemError Posix.EINVAL what)) ↔
      Posix.IOV_MAX < buffers.length ∨ Posix.ssizeMax.toNat < totalSize buffers) ∧
    (∀ (front : List ByteSpan) (buffer : ByteSpan) (back : List ByteSpan) (total : UInt64) (done : List Iovec),
      buffers = front ++ buffer :: back → iovecLoop 0 [] front = .ok (total, done) → NoWrap total buffer) ∧
    (¬(Posix.IOV_MAX < buffers.length ∨ Posix.ssizeMax.toNat < totalSize buffers) →
      makeIovecs buffers = .ok (buffers.map fun b => ⟨b.data, b.size⟩)) ∧
    ((iovecs buffers).map fun v => v.iovLen.toNat).sum = totalSize buffers ∧
    (∀ this : UnixSocket P, Moves (Posix.Calls (TransfersAll buffers)) (this.readSome buffers) ∧
      Moves (Posix.Calls (TransfersAll buffers)) (this.writeSome buffers)) ∧
    ∀ (this : UnixSocket P) (posix : P) (k : PosixState (PosixEvent P) PosixAnswer),
      this.fileDescriptor.posixPointer = some posix → buffers ≠ [] →
      ¬(Posix.IOV_MAX < buffers.length ∨ Posix.ssizeMax.toNat < totalSize buffers) →
      (∃ again, (this.readSome buffers k).2.history = k.history ++ List.replicate (again + 1)
        (.readv posix this.fileDescriptor.fileDescriptor (iovecs buffers) buffers.length)) ∧
      ∃ again, (this.writeSome buffers k).2.history = k.history ++ List.replicate (again + 1)
        (.sendmsg posix this.fileDescriptor.fileDescriptor (iovecs buffers) (UInt64.ofNat buffers.length)
          Posix.MSG_NOSIGNAL) := by
  refine ⟨⟨?_, fun h => ?_⟩, fun _ buffer _ _ _ _ hloop => noWrap_of_loop hloop buffer, fun h => ?_, ?_,
    fun this => ⟨this.readSome_calls buffers, this.writeSome_calls buffers⟩,
    fun this posix k hposix hne hfits => ⟨?_, ?_⟩⟩
  · rintro ⟨what, herror⟩
    rcases makeIovecs_eq buffers with ⟨h, -⟩ | ⟨-, -, hok⟩
    · exact h
    · cases hok.symm.trans herror
  · rcases makeIovecs_eq buffers with ⟨-, herror⟩ | ⟨hcount, hsize, -⟩
    · exact herror
    · omega
  · rcases makeIovecs_eq buffers with ⟨hlarge, -⟩ | ⟨-, -, hok⟩
    · exact absurd hlarge h
    · exact hok
  · rw [iovecs, List.map_map]
    rfl
  · have hcount : Posix.toInt32 (iovecs buffers).length = buffers.length := by
      rw [iovecs, List.length_map]
      exact toInt32_eq (Nat.le_of_not_lt fun h => hfits (.inl h))
    rw [← hcount]
    exact transfer_history hposix hne hfits (fun posix iovecs => .readv posix
      this.fileDescriptor.fileDescriptor iovecs (Posix.toInt32 iovecs.length)) "read from Unix socket" k
  · have hcount : (iovecs buffers).length = buffers.length := List.length_map _
    rw [← hcount]
    exact transfer_history hposix hne hfits (fun posix iovecs => .sendmsg posix
      this.fileDescriptor.fileDescriptor iovecs (UInt64.ofNat iovecs.length) Posix.MSG_NOSIGNAL)
      "write to Unix socket" k

/-- Two buffers whose sizes add up to the largest total. -/
def fullBuffers : List ByteSpan := [⟨0, 1⟩, ⟨1, Posix.ssizeMax - 1⟩]

def openSocket : UnixSocket Unit := ⟨⟨some 3, some (), fun _ => rfl⟩⟩

/-- The largest total is read with a call that is interrupted once, and one byte more is refused. -/
theorem makeIovecs_exact_full :
    (∃ again, (openSocket.readSome fullBuffers ⟨[], [.fails Posix.EINTR, .value 5]⟩).2.history =
      List.replicate (again + 1) (.readv () (some 3) [⟨0, 1⟩, ⟨1, Posix.ssizeMax - 1⟩] 2)) ∧
    ∃ what, makeIovecs [⟨0, 2⟩, ⟨2, Posix.ssizeMax - 1⟩] = .error (.systemError Posix.EINVAL what) := by
  obtain ⟨-, -, -, -, -, hcalls⟩ := makeIovecs_exact (P := Unit) fullBuffers
  refine ⟨(hcalls openSocket () ⟨[], [.fails Posix.EINTR, .value 5]⟩ rfl (by decide) (by decide)).1, ?_⟩
  exact (makeIovecs_exact (P := Unit) [⟨0, 2⟩, ⟨2, Posix.ssizeMax - 1⟩]).1.mpr (by decide)

end UnixSocket

end UdfRunner
