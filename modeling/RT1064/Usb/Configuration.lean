import RT1064.Core.Run
import RT1064.Usb.Setup

/-!
# Two views of the configuration

The class driver and the application each keep the configuration. They agree as long as the host
asks for configurations that exist: the class takes any value before the application refuses it.
-/

namespace RT1064.Usb

open Core

namespace Setup

/-- Pipe `p` has its endpoint, open and with its callback. -/
def PipeInitialised (t : Setup) (p : Endpoint) : Prop :=
  t.ep p = p.number ∧ t.isOpened p.address ∧ t.callbackFn p.address = some p

/-- The endpoints of the class are initialised. -/
def Initialised (t : Setup) : Prop := ∀ p, t.PipeInitialised p

/-- Application and class driver agree. -/
structure Agree (t : Setup) : Prop where
  attach_iff : t.cdcVcom.attach ↔ t.cdcVcom.currentConfiguration = 1
  attached : t.cdcVcom.attach → t.configuration = 1 ∧ t.Initialised

/-- What the application holds of the configuration. -/
def appView (t : Setup) : Bool × UInt8 := (t.cdcVcom.attach, t.cdcVcom.currentConfiguration)

/-- What the class driver holds of it. -/
def classView (t : Setup) :
    UInt8 × (Endpoint → UInt8) × (UInt8 → Bool) × (UInt8 → Option Endpoint) :=
  (t.configuration, t.ep, t.isOpened, t.callbackFn)

/-- The two views as runs without unknown configurations keep them. -/
structure Tracked (t : Setup) : Prop where
  attach_iff : t.cdcVcom.attach ↔ t.cdcVcom.currentConfiguration = 1
  attached : t.cdcVcom.attach → t.configuration = 1
  known : t.configuration = 0 ∨ t.configuration = 1
  initialised : t.configuration = 1 → t.Initialised

variable {t : Setup}

lemma Tracked.agree (h : t.Tracked) : t.Agree :=
  ⟨h.attach_iff, fun hattach => ⟨h.attached hattach, h.initialised (h.attached hattach)⟩⟩

/-! ### One request -/

lemma pipeInitialised_openPipe (t : Setup) (p : Endpoint) : (t.openPipe p).PipeInitialised p := by
  simp [PipeInitialised, openPipe, setEndpoint, setEp]

/-- Opening a pipe leaves the others alone. -/
lemma PipeInitialised.openPipe {p : Endpoint} (h : t.PipeInitialised p) (q : Endpoint) :
    (t.openPipe q).PipeInitialised p := by
  by_cases hq : p = q
  · subst hq
    exact t.pipeInitialised_openPipe p
  · simpa [PipeInitialised, Setup.openPipe, setEndpoint, setEp, hq] using h

lemma initialised_endpointsInit (h : t.configuration = 1) : t.endpointsInit.Initialised := by
  rw [endpointsInit, if_pos h]
  intro p
  cases p with
  | interruptIn => exact ((pipeInitialised_openPipe _ _).openPipe _).openPipe _
  | bulkIn      => exact (pipeInitialised_openPipe _ _).openPipe _
  | bulkOut     => exact pipeInitialised_openPipe _ _

lemma initialised_setConfiguration (h : t.configuration = 1 → t.Initialised) :
    (t.setConfiguration 1).Initialised := by
  simp only [setConfiguration]
  split_ifs with hv
  · exact h hv.symm
  · exact initialised_endpointsInit rfl

/-- The application leaves the class alone. -/
@[simp] lemma classView_attachTo (v : UInt8) : (t.attachTo v).classView = t.classView := by
  simp only [attachTo]
  split_ifs <;> rfl

lemma tracked_attachTo_zero (h : t.configuration = 0) : (t.attachTo 0).Tracked := by
  rw [attachTo, if_pos rfl]
  refine ⟨by simp, fun hattach => absurd hattach (by simp), Or.inl h, fun hone => ?_⟩
  exact absurd (h.symm.trans hone) (by decide)

lemma tracked_attachTo_one (h : t.configuration = 1) (hinit : t.Initialised) :
    (t.attachTo USB_CDC_VCOM_CONFIGURE_INDEX).Tracked := by
  rw [attachTo, if_neg (by decide), if_pos rfl]
  exact ⟨by simp [USB_CDC_VCOM_CONFIGURE_INDEX], fun _ => h, Or.inr h, fun _ => hinit⟩

end Setup

/-! ### Runs -/

variable {s : State} {e : Event}

/-- After the event the views agree, and a request that was refused has left them as they were. -/
def ConfigurationConsistent (s : State) (e : Event) : Prop :=
  (step s e).setup.Agree ∧
    ∀ wValue, e = .setConfiguration wValue →
      (USB_DeviceCh9SetConfiguration s wValue).1 = .InvalidRequest →
        (step s e).setup.appView = s.setup.appView ∧ (step s e).setup.classView = s.setup.classView

/-- A SET_CONFIGURATION that gets through asks for configuration 0 or 1. -/
def ConfigurationKnown (s : State) (e : Event) : Prop :=
  ∀ wValue, e = .setConfiguration wValue → s.setup.Delivers →
    wValue.toUInt8 = 0 ∨ wValue.toUInt8 = USB_CDC_VCOM_CONFIGURE_INDEX

/-- The answer to a SET_CONFIGURATION. -/
lemma status_setConfiguration (wValue : UInt16) :
    (USB_DeviceCh9SetConfiguration s wValue).1 =
      if s.setup.Delivers ∧
        (wValue.toUInt8 = 0 ∨ wValue.toUInt8 = USB_CDC_VCOM_CONFIGURE_INDEX) then .Success
      else .InvalidRequest := by
  by_cases hdelivers : s.state = .Address ∨ s.state = .Configured
  · have hdelivers' : s.setup.Delivers := hdelivers
    simp only [USB_DeviceCh9SetConfiguration, if_pos hdelivers, hdelivers', true_and,
      USB_DeviceCallbackSetConfiguration]
    split_ifs <;> simp_all
  · have hdelivers' : ¬ s.setup.Delivers := hdelivers
    rw [USB_DeviceCh9SetConfiguration, if_neg hdelivers, if_neg fun h => hdelivers' h.1]

/-- Known configurations keep both views in step. -/
lemma tracked_step (h : s.setup.Tracked) (he : ConfigurationKnown s e) :
    (step s e).setup.Tracked := by
  rw [setup_step]
  cases e with
  | busReset speed =>
    exact ⟨by simp [Setup.step], fun hattach => absurd hattach (by simp [Setup.step]), Or.inl rfl,
      fun hone => absurd hone (by simp [Setup.step])⟩
  | setAddress wValue =>
    simp only [Setup.step]
    split_ifs
    · exact ⟨h.attach_iff, h.attached, h.known, h.initialised⟩
    · exact h
  | setConfiguration wValue =>
    by_cases hdelivers : s.setup.Delivers
    · rw [Setup.step, if_pos hdelivers]
      rcases he wValue rfl hdelivers with hv | hv
      · rw [hv]
        exact Setup.tracked_attachTo_zero (Setup.setConfiguration_rest 0).2.2.2
      · rw [hv]
        exact Setup.tracked_attachTo_one (Setup.setConfiguration_rest 1).2.2.2
          (Setup.initialised_setConfiguration h.initialised)
    · rw [Setup.step, if_neg hdelivers]
      exact h
  | setControlLineState wValue wIndex =>
    simp only [Setup.step, Setup.start]
    split_ifs <;> exact ⟨h.attach_iff, h.attached, h.known, h.initialised⟩
  | appTask text =>
    simp only [Setup.step, Setup.appTask]
    split_ifs <;> exact ⟨h.attach_iff, h.attached, h.known, h.initialised⟩
  | token p => exact h
  | complete p n => exact h

lemma tracked_init (acmInfo : AcmInfo) (answers : ℕ → UsbStatus) :
    (USB_DeviceApplicationInit acmInfo answers).setup.Tracked :=
  ⟨by simp [State.setup, USB_DeviceApplicationInit], fun hattach => (by cases hattach), Or.inl rfl,
    fun hone => (by cases hone)⟩

/-- Where the views are tracked, an event spoils them exactly if it brings in an unknown
configuration. -/
lemma consistent_iff_known (h : s.setup.Tracked) :
    ConfigurationConsistent s e ↔ ConfigurationKnown s e := by
  constructor
  · rintro ⟨-, hrefused⟩ wValue rfl hdelivers
    by_contra hunknown
    have hstatus : (USB_DeviceCh9SetConfiguration s wValue).1 = .InvalidRequest := by
      rw [status_setConfiguration, if_neg fun hk => hunknown hk.2]
    -- the class has taken the value although the request was refused
    have hclass := (hrefused wValue rfl hstatus).2
    have hvalue : (step s (.setConfiguration wValue)).setup.classView.1 = wValue.toUInt8 := by
      rw [setup_step, Setup.step, if_pos hdelivers, Setup.classView_attachTo]
      exact (Setup.setConfiguration_rest _).2.2.2
    rw [hclass] at hvalue
    rcases h.known with hk | hk
    · exact hunknown (Or.inl (hvalue.symm.trans hk))
    · exact hunknown (Or.inr (hvalue.symm.trans hk))
  · intro hknown
    refine ⟨(tracked_step h hknown).agree, ?_⟩
    rintro wValue rfl hstatus
    have hdelivers : ¬ s.setup.Delivers := by
      intro hdelivers
      rw [status_setConfiguration, if_pos ⟨hdelivers, hknown wValue rfl hdelivers⟩] at hstatus
      exact absurd hstatus (by decide)
    rw [setup_step, Setup.step, if_neg hdelivers]
    exact ⟨rfl, rfl⟩

/-- In a run from power-up the two views agree after every event, and survive every refused
request, exactly if no SET_CONFIGURATION that gets through asks for a configuration other than 0
and 1. -/
theorem configuration_consistent_iff (acmInfo : AcmInfo) (answers : ℕ → UsbStatus)
    (es : List Event) :
    EveryStep step ConfigurationConsistent (USB_DeviceApplicationInit acmInfo answers) es ↔
      EveryStep step ConfigurationKnown (USB_DeviceApplicationInit acmInfo answers) es :=
  everyStep_iff_of_inv (fun s => s.setup.Tracked) (fun _ _ h he => tracked_step h he)
    (fun _ _ h => consistent_iff_known h) (tracked_init acmInfo answers)

/-- SET_CONFIGURATION(2) on a configured device is refused, but the class has closed its endpoints
while the application stays attached. -/
theorem unknown_configuration :
    ¬ EveryStep step ConfigurationConsistent
      (USB_DeviceApplicationInit ⟨[], false, 0, 0⟩ fun _ => .Success)
      [.setAddress 5, .setConfiguration 1, .setConfiguration 2] := by
  intro h
  obtain ⟨-, -, hagree, -⟩ := h
  obtain ⟨hagree, -⟩ := hagree
  exact absurd (hagree.attached (by decide)).1 (by decide)

end RT1064.Usb
