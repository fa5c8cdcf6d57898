import Mathlib.Logic.Relation
import RT1064.Usb.VirtualCom

/-!
# Transfers on the pipes

The part of the device that transfers change, and the moves it makes: a transfer is taken, its
packets go out, it ends, and endpoints are opened and closed in between. Each of the device's
functions is a sequence of such moves, so an invariant of the transfers is checked move by move.
-/

namespace RT1064.Usb

open Core Relation

/-! ### Pipes and endpoints -/

/-- What transfers change. -/
structure Flow where
  pipe : Endpoint → Pipe
  endpoints : UInt8 → EndpointState
  hasSentState : Bool
  trace : List Observation

def State.flow (s : State) : Flow := ⟨s.cdcAcm.pipe, s.endpoints, s.cdcAcm.hasSentState, s.trace⟩

namespace Flow

variable (x : Flow) (p : Endpoint)

abbrev endpoint : EndpointState := x.endpoints p.address

/-- Change a pipe and its endpoint. -/
def modify (p : Endpoint) (f : Pipe → Pipe) (g : EndpointState → EndpointState) : Flow :=
  { x with
    pipe := Function.update x.pipe p (f (x.pipe p))
    endpoints := Function.update x.endpoints p.address (g (x.endpoint p)) }

variable {p} {q : Endpoint} {f : Pipe → Pipe} {g : EndpointState → EndpointState}

@[simp] lemma modify_pipe_self : (x.modify p f g).pipe p = f (x.pipe p) := Function.update_self ..

@[simp] lemma modify_endpoint_self : (x.modify p f g).endpoint p = g (x.endpoint p) :=
  Function.update_self ..

lemma modify_endpoint_ne (h : q ≠ p) : (x.modify p f g).endpoint q = x.endpoint q :=
  Function.update_of_ne (Endpoint.address_injective.ne h) ..

/-- The controller takes a transfer. -/
def take (p : Endpoint) (buffer : Buffer) (length : ℕ) : Flow :=
  { x.modify p (fun v => { v with isBusy := true })
      (fun e => { e with transfer := some { buffer, length }, isBusy := true }) with
    trace := .taken p.address buffer length :: x.trace }

/-- A transfer ends; on the interrupt pipe the application hears of it. -/
def finish (p : Endpoint) : Flow :=
  { x.modify p (fun v => { v with isBusy := false })
      (fun e => { e with transfer := none, isBusy := false }) with
    hasSentState := if p = .interruptIn then false else x.hasSentState }

/-- The moves. -/
inductive Move : Flow → Flow → Prop
  | receive (x : Flow) (n : ℕ) (hopen : (x.endpoint .bulkOut).isOpened)
      (hidle : (x.endpoint .bulkOut).transfer = none) (hn : n ≤ DATA_BUFF_SIZE.toNat) :
      Move x (x.take .bulkOut .currRecvBuf n)
  | send (x : Flow) (buffer : Buffer) (length : ℕ) (hopen : (x.endpoint .bulkIn).isOpened)
      (hidle : (x.endpoint .bulkIn).transfer = none) : Move x (x.take .bulkIn buffer length)
  | notify (x : Flow) (length : ℕ) (hopen : (x.endpoint .interruptIn).isOpened)
      (hidle : (x.endpoint .interruptIn).transfer = none) (hsent : x.hasSentState = false) :
      Move x { x.take .interruptIn .serialStateBuf length with hasSentState := true }
  | packet (x : Flow) (p : Endpoint) (t : Transfer) (payload : List UInt8)
      (ht : (x.endpoint p).transfer = some t) :
      Move x { x.modify p id
          (fun e => { e with transfer := some { t with packets := t.packets + 1 } }) with
        trace := .packet p.address payload :: x.trace }
  | finish (x : Flow) (p : Endpoint) (t : Transfer) (ht : (x.endpoint p).transfer = some t) :
      Move x (x.finish p)
  | close (x : Flow) (p : Endpoint) (hidle : (x.endpoint p).transfer = none) :
      Move x (x.modify p id fun e => { e with isOpened := false })
  | detach (x : Flow) (p : Endpoint) (hclosed : (x.endpoint p).isOpened = false) :
      Move x (x.modify p id fun e => { e with callbackFn := none, isBusy := false })
  | install (x : Flow) (p : Endpoint) (n : UInt16) (hclosed : (x.endpoint p).isOpened = false) :
      Move x (x.modify p (fun _ => { ep := p.number })
        fun _ => { isOpened := true, maxPacketSize := n, callbackFn := some p })
  | clear (x : Flow) (n : UInt16) (hclosed : ∀ p, (x.endpoint p).isOpened = false) :
      Move x { x with endpoints := fun _ => { maxPacketSize := n } }

/-- Sequences of moves. -/
abbrev Moves : Flow → Flow → Prop := ReflTransGen Move

/-- A closed endpoint is opened. -/
def Install (x y : Flow) : Prop :=
  ∃ p n, (x.endpoint p).isOpened = false ∧
    y = x.modify p (fun _ => { ep := p.number })
      fun _ => { isOpened := true, maxPacketSize := n, callbackFn := some p }

abbrev Installs : Flow → Flow → Prop := ReflTransGen Install

lemma Installs.moves {x y : Flow} (h : Installs x y) : Moves x y := by
  induction h with
  | refl => exact .refl
  | tail _ hinstall ih =>
    obtain ⟨p, n, hclosed, rfl⟩ := hinstall
    exact ih.tail (.install _ p n hclosed)

/-- Nothing is in flight. -/
def Idle (x : Flow) : Prop := ∀ p, (x.endpoint p).transfer = none

lemma Idle.installs {x y : Flow} (hx : x.Idle) (h : Installs x y) : y.Idle := by
  induction h with
  | refl => exact hx
  | tail _ hinstall ih =>
    obtain ⟨p, n, hclosed, rfl⟩ := hinstall
    intro q
    by_cases hq : q = p
    · subst hq
      rw [modify_endpoint_self]
    · rw [modify_endpoint_ne _ hq]
      exact ih q

/-- An invariant of the moves is one of their sequences. -/
lemma Moves.inv {I : Flow → Prop} (hI : ∀ x y, I x → Move x y → I y) {x y : Flow}
    (h : Moves x y) (hx : I x) : I y := by
  induction h with
  | refl => exact hx
  | tail _ hmove ih => exact hI _ _ ih hmove

end Flow

/-! ### Pipe, device layer and controller agree -/

/-- What pipe `p` and its endpoint know of each other. -/
structure PipeLinked (p : Endpoint) (v : Pipe) (e : EndpointState) : Prop where
  stall : v.pipeStall = false
  ep : v.ep = 0 ∨ v.ep = p.number
  opened : e.isOpened → v.ep = p.number ∧ e.callbackFn = some p
  closed : e.isOpened = false → e.transfer = none
  busy : v.isBusy = e.transfer.isSome
  epBusy : e.isBusy = e.transfer.isSome

/-- All pipes agree with their endpoints. -/
def Flow.Linked (x : Flow) : Prop := ∀ p, PipeLinked p (x.pipe p) (x.endpoint p)

namespace Flow

variable {x y : Flow} {p : Endpoint}

/-- Only pipe `p` and its endpoint have to be looked at where nothing else changes. -/
lemma Linked.update (h : x.Linked) {v : Pipe} {e : EndpointState} (hp : PipeLinked p v e)
    (b : Bool) (trace : List Observation) :
    Linked ⟨Function.update x.pipe p v, Function.update x.endpoints p.address e, b, trace⟩ := by
  intro q
  by_cases hq : q = p
  · subst hq
    simpa [endpoint] using hp
  · simpa [endpoint, hq] using h q

lemma Linked.take (h : x.Linked) (hopen : (x.endpoint p).isOpened) (buffer : Buffer)
    (length : ℕ) : (x.take p buffer length).Linked := by
  refine h.update ?_ _ _
  exact
    { stall := (h p).stall
      ep := (h p).ep
      opened := (h p).opened
      closed := fun hclosed => absurd hclosed (by simp [hopen])
      busy := rfl
      epBusy := rfl }

lemma Linked.finish (h : x.Linked) (p : Endpoint) : (x.finish p).Linked := by
  refine h.update ?_ _ _
  exact
    { stall := (h p).stall
      ep := (h p).ep
      opened := (h p).opened
      closed := fun _ => rfl
      busy := rfl
      epBusy := rfl }

/-- Every move keeps the pipes linked. -/
lemma Linked.move (h : x.Linked) (hmove : Move x y) : y.Linked := by
  cases hmove with
  | receive n hopen hidle hn => exact h.take hopen _ _
  | send buffer length hopen hidle => exact h.take hopen _ _
  | notify length hopen hidle hsent => exact h.take hopen _ _
  | packet p t payload ht =>
    have hp := h p
    refine h.update ?_ _ _
    refine ⟨hp.stall, hp.ep, hp.opened, fun hclosed => ?_, ?_, ?_⟩
    · exact absurd (hp.closed hclosed) (by simp [ht])
    · exact hp.busy.trans (by rw [ht]; rfl)
    · exact hp.epBusy.trans (by rw [ht]; rfl)
  | finish p t ht => exact h.finish p
  | close p hidle =>
    have hp := h p
    refine h.update ?_ _ _
    exact ⟨hp.stall, hp.ep, fun hopen => (by cases hopen), fun _ => hidle, hp.busy, hp.epBusy⟩
  | detach p hclosed =>
    have hp := h p
    refine h.update ?_ _ _
    refine ⟨hp.stall, hp.ep, fun hopen => ?_, hp.closed, hp.busy, ?_⟩
    · exact absurd hopen (by simp [hclosed])
    · rw [hp.closed hclosed]
      rfl
  | install p n hclosed =>
    refine h.update ?_ _ _
    exact ⟨rfl, Or.inr rfl, fun _ => ⟨rfl, rfl⟩, fun hclosed => (by cases hclosed), rfl, rfl⟩
  | clear n hclosed =>
    intro p
    have hp := h p
    refine ⟨hp.stall, hp.ep, fun hopen => (by cases hopen), fun _ => rfl, ?_, rfl⟩
    rw [hp.busy, hp.closed (hclosed p)]

lemma Linked.moves (h : x.Linked) (hmoves : Moves x y) : y.Linked :=
  hmoves.inv (fun _ _ hx hmove => Linked.move hx hmove) h

end Flow
end RT1064.Usb
