import RT1064.Core.Run
import RT1064.Usb.Moves

/-!
# Sizes after a speed update

What `USB_DeviceSetSpeed` makes of a configuration descriptor, and what the device does with the
sizes in its tables: no receive is ever longer than the buffer it is for.
-/

namespace RT1064.Usb

open Core Flow

/-! ### The descriptor -/

/-- Byte `i` is one that depends on the speed. -/
def ConfigurationDescriptor.IsSpeedByte (c : ConfigurationDescriptor) (i : ℕ) : Prop :=
  ∃ pre d post o, c.parts = pre ++ d :: post ∧ i = pre.flatten.length + o ∧ o < d.length ∧
    SpeedByte d o

/-- The loop ends, after a visit to each descriptor in turn, and has changed no other bytes. -/
def ConfigurationDescriptor.Updates (c : ConfigurationDescriptor) (speed : UInt8) : Prop :=
  ∃ b, walkDescriptors (SpeedValues.of speed) c.bytes = some (b, starts 0 c.parts) ∧
    (∀ cicEndpoints dicEndpoints,
      (USB_DeviceSetSpeed ⟨c.bytes, cicEndpoints, dicEndpoints⟩ speed).map
        Descriptors.configuration = some b) ∧
    b.length = c.bytes.length ∧ ∀ i, b[i]? ≠ c.bytes[i]? → c.IsSpeedByte i

lemma ConfigurationDescriptor.length_patch (c : ConfigurationDescriptor) (v : SpeedValues) :
    (c.patch v).bytes.length = c.bytes.length := by
  obtain ⟨parts, hparts⟩ := c
  simp only [patch, bytes, List.length_flatten, List.map_map]
  congr 1
  exact List.map_congr_left fun d _ => length_visit v d 0

lemma ConfigurationDescriptor.updates (c : ConfigurationDescriptor) (speed : UInt8) :
    c.Updates speed := by
  refine ⟨_, c.walkDescriptors_bytes _, fun cicEndpoints dicEndpoints => ?_, c.length_patch _,
    fun _ h => c.patch_ne h⟩
  rw [setSpeed_eq (c := c) rfl]
  rfl

/-! ### Receives -/

/-- No receive was longer than the buffer. -/
def Flow.ReceivesFit (x : Flow) : Prop :=
  ∀ buffer n, .taken Endpoint.bulkOut.address buffer n ∈ x.trace → n ≤ DATA_BUFF_SIZE.toNat

variable {x y : Flow} {s : State} {e : Event}

/-- Only a new receive matters. -/
lemma Flow.ReceivesFit.cons (h : x.ReceivesFit) {o : Observation}
    (ho : ∀ buffer n, o = .taken Endpoint.bulkOut.address buffer n → n ≤ DATA_BUFF_SIZE.toNat)
    (htrace : y.trace = o :: x.trace) : y.ReceivesFit := by
  intro buffer n hmem
  rw [htrace] at hmem
  rcases List.mem_cons.mp hmem with heq | hmem
  · exact ho buffer n heq.symm
  · exact h buffer n hmem

lemma Flow.ReceivesFit.move (h : x.ReceivesFit) (hmove : Move x y) : y.ReceivesFit := by
  cases hmove with
  | receive n hopen hidle hn =>
    refine h.cons (fun buffer n' heq => ?_) rfl
    cases heq
    exact hn
  | send buffer length hopen hidle =>
    refine h.cons (fun buffer' n heq => ?_) rfl
    cases heq
  | notify length hopen hidle hsent =>
    refine h.cons (fun buffer n heq => ?_) rfl
    cases heq
  | packet p t payload ht =>
    refine h.cons (fun buffer n heq => ?_) rfl
    cases heq
  | finish p t ht => exact h
  | close p hidle => exact h
  | detach p hclosed => exact h
  | install p n hclosed => exact h
  | clear n hclosed => exact h

/-- What holds of the receives between any two steps. -/
structure State.Receiving (s : State) : Prop where
  coherent : s.Coherent
  fit : s.flow.ReceivesFit

lemma receivesFit_setControlLineState (h : s.Receiving) (wValue wIndex : UInt16) :
    (setControlLineState s wValue wIndex).flow.ReceivesFit := by
  obtain hmove | heq | heq := setControlLineState_cases h.coherent.linked wValue wIndex
  · exact h.fit.move hmove
  · rw [heq]
    exact h.fit
  · rw [heq]
    refine h.fit.cons (fun buffer n htaken => ?_) rfl
    cases htaken

lemma State.Receiving.step (h : s.Receiving) (e : Event) : (Usb.step s e).Receiving where
  coherent := h.coherent.step e
  fit := by
    refine h.coherent.inv_step (fun _ _ hx _ hmove => ReceivesFit.move hx hmove) h.fit ?_
    rintro wValue wIndex rfl
    exact inv_step_setControlLineState h.fit (receivesFit_setControlLineState h wValue wIndex)

lemma receivesFit_run (acmInfo : AcmInfo) (answers : ℕ → UsbStatus) (es : List Event) :
    (es.foldl step (USB_DeviceApplicationInit acmInfo answers)).flow.ReceivesFit := by
  refine (inv_foldl_of_forall State.Receiving (fun _ e hs => hs.step e) es ?_).fit
  exact ⟨coherent_init acmInfo answers, fun _ _ hmem => (by cases hmem)⟩

/-! ### USB_DeviceSetSpeed -/

/-- `USB_DeviceSetSpeed` goes through every well-formed configuration descriptor `c` and changes
the bytes that depend on the speed only; of several calls the last one decides; the device's own
descriptor and tables agree after any calls and in any run, and no receive of a run is longer than
the buffer. -/
theorem setSpeed_sound (c : ConfigurationDescriptor)
    (cicEndpoints dicEndpoints : List EndpointStruct) (speeds : List UInt8) (speed : UInt8)
    (acmInfo : AcmInfo) (answers : ℕ → UsbStatus) (es : List Event) :
    c.Updates speed ∧
      (speeds ++ [speed]).foldlM USB_DeviceSetSpeed ⟨c.bytes, cicEndpoints, dicEndpoints⟩ =
        USB_DeviceSetSpeed ⟨c.bytes, cicEndpoints, dicEndpoints⟩ speed ∧
      (∃ d, speeds.foldlM USB_DeviceSetSpeed Descriptors.initial = some d ∧ d.Consistent) ∧
      (es.foldl step (USB_DeviceApplicationInit acmInfo answers)).tables.1.Consistent ∧
      (es.foldl step (USB_DeviceApplicationInit acmInfo answers)).flow.ReceivesFit := by
  refine ⟨c.updates speed, foldlM_setSpeed rfl speeds speed, ?_, ?_, ?_⟩
  · obtain ⟨d, hd, hreached⟩ := Descriptors.reached_initial.foldlM speeds
    exact ⟨d, hd, hreached.consistent⟩
  · exact (es.foldl step (USB_DeviceApplicationInit acmInfo answers)).tables.2.consistent
  · exact receivesFit_run acmInfo answers es

end RT1064.Usb
