import RT1064.Usb.Configuration

/-!
# When APPTask may send

The transmit guard is made of two flags. `attach` follows the configuration, but
`startTransactions` is set by every SET_CONTROL_LINE_STATE and never cleared, so the guard follows
the DTE-present bit only if the host never clears it.
-/

namespace RT1064.Usb

open Core

/-! ### What the host has asked for -/

/-- The DTE-present bit of a SET_CONTROL_LINE_STATE. -/
def DtePresent (wValue : UInt16) : Prop :=
  wValue.toUInt8 &&& USB_DEVICE_CDC_CONTROL_SIG_BITMAP_DTE_PRESENCE ≠ 0

instance (wValue : UInt16) : Decidable (DtePresent wValue) := inferInstanceAs (Decidable (_ ≠ _))

/-- The latest line state since the latest bus reset or SET_CONFIGURATION(0), after one more
event. -/
def lineState (latest : Option UInt16) : Event → Option UInt16
  | .busReset _              => none
  | .setConfiguration wValue => if wValue.toUInt8 = 0 then none else latest
  | .setControlLineState wValue wIndex =>
    if wIndex.toUInt8 = USB_CDC_VCOM_COMM_INTERFACE_INDEX then some wValue else latest
  | _ => latest

/-- The host has the port open. -/
def PortOpen (latest : Option UInt16) : Prop := ∃ wValue, latest = some wValue ∧ DtePresent wValue

/-- The device beside a record of what the host has asked for. -/
def monitoredStep (x : State × Option UInt16) (e : Event) : State × Option UInt16 :=
  (step x.1 e, lineState x.2 e)

/-- After the event APPTask sends only to an open port. -/
def GuardSound (x : State × Option UInt16) (e : Event) : Prop :=
  (monitoredStep x e).1.transmitGuard → PortOpen (monitoredStep x e).2

/-- The host does not close the port of an attached device, nor configure a device that has begun
to send but whose port is not open. -/
def PortKept (x : State × Option UInt16) (e : Event) : Prop :=
  match e with
  | .setConfiguration wValue =>
    x.1.setup.Delivers → wValue.toUInt8 = USB_CDC_VCOM_CONFIGURE_INDEX →
      x.1.cdcVcom.startTransactions → PortOpen x.2
  | .setControlLineState wValue wIndex =>
    wIndex.toUInt8 = USB_CDC_VCOM_COMM_INTERFACE_INDEX → x.1.cdcVcom.attach → DtePresent wValue
  | _ => True

/-! ### The flags -/

namespace Setup

/-- What the flags need of the rest of the set-up. -/
structure Addressed (t : Setup) : Prop where
  delivers : t.cdcVcom.attach → t.Delivers
  interfaceNumber : t.interfaceNumber = USB_CDC_VCOM_COMM_INTERFACE_INDEX

variable {t : Setup}

/-- The class sets the interface number it has already. -/
lemma interfaceNumber_setConfiguration
    (h : t.interfaceNumber = USB_CDC_VCOM_COMM_INTERFACE_INDEX) (v : UInt8) :
    (t.setConfiguration v).interfaceNumber = USB_CDC_VCOM_COMM_INTERFACE_INDEX := by
  simp only [setConfiguration, endpointsInit]
  split_ifs <;> simp [h]

lemma Addressed.step (h : t.Addressed) (e : Event) : (t.step e).Addressed := by
  cases e with
  | busReset speed => exact ⟨fun hattach => (by cases hattach), h.interfaceNumber⟩
  | setAddress wValue =>
    simp only [Setup.step]
    split_ifs
    · exact ⟨fun _ => Or.inl rfl, h.interfaceNumber⟩
    · exact h
  | setConfiguration wValue =>
    by_cases hdelivers : t.Delivers
    · rw [Setup.step, if_pos hdelivers]
      refine ⟨fun _ => ?_, ?_⟩
      · simp only [Delivers, attachTo_rest, setConfiguration_rest]
        split_ifs
        · exact Or.inl rfl
        · exact Or.inr rfl
      · rw [(attachTo_rest _).2.2.2.1]
        refine interfaceNumber_setConfiguration ?_ _
        exact h.interfaceNumber
    · rw [Setup.step, if_neg hdelivers]
      exact h
  | setControlLineState wValue wIndex =>
    simp only [Setup.step, start]
    split_ifs <;> exact ⟨h.delivers, h.interfaceNumber⟩
  | appTask text =>
    simp only [Setup.step, appTask]
    split_ifs <;> exact ⟨h.delivers, h.interfaceNumber⟩
  | token p => exact h
  | complete p n => exact h

end Setup

/-! ### Runs -/

variable {x : State × Option UInt16} {e : Event}

/-- The guard is sound, and the flags know what they need. -/
structure PortTracked (x : State × Option UInt16) : Prop where
  addressed : x.1.setup.Addressed
  sound : x.1.transmitGuard → PortOpen x.2

lemma transmitGuard_iff {s : State} : s.transmitGuard ↔
    s.setup.cdcVcom.attach ∧ s.setup.cdcVcom.startTransactions := by
  simp [State.transmitGuard, State.setup]

/-- Events that do not touch the flags. -/
lemma guardSound_of_eq (h : PortTracked x)
    (hflags : (step x.1 e).setup.cdcVcom = x.1.setup.cdcVcom) (hline : lineState x.2 e = x.2) :
    GuardSound x e := by
  intro hguard
  simp only [monitoredStep, transmitGuard_iff, hflags] at hguard
  simp only [monitoredStep, hline]
  exact h.sound (transmitGuard_iff.mpr hguard)

/-- Events after which the device is not attached. -/
lemma guardSound_of_not_attach (h : (step x.1 e).setup.cdcVcom.attach = false) :
    GuardSound x e := by
  intro hguard
  exact absurd (transmitGuard_iff.mp hguard).1 (by simp [monitoredStep, h])

/-- Where the guard has been sound, one event spoils it exactly if it closes the port. -/
lemma guardSound_iff (h : PortTracked x) : GuardSound x e ↔ PortKept x e := by
  cases e with
  | busReset speed =>
    refine iff_of_true (guardSound_of_not_attach ?_) trivial
    rw [setup_step]
    rfl
  | setAddress wValue =>
    refine iff_of_true (guardSound_of_eq h ?_ rfl) trivial
    rw [setup_step, Setup.step]
    split_ifs <;> rfl
  | setConfiguration wValue =>
    by_cases hdelivers : x.1.setup.Delivers
    · have hsetup : (step x.1 (.setConfiguration wValue)).setup = _ := setup_step _ _
      rw [Setup.step, if_pos hdelivers] at hsetup
      by_cases hzero : wValue.toUInt8 = 0
      · refine iff_of_true (guardSound_of_not_attach ?_) fun _ hone => ?_
        · rw [hsetup, Setup.attach_attachTo, if_pos hzero]
        · exact absurd (hzero.symm.trans hone) (by decide)
      by_cases hone : wValue.toUInt8 = USB_CDC_VCOM_CONFIGURE_INDEX
      · have hattach : (step x.1 (.setConfiguration wValue)).setup.cdcVcom.attach = true := by
          rw [hsetup, Setup.attach_attachTo, if_neg hzero, if_pos hone]
        have hstart : (step x.1 (.setConfiguration wValue)).setup.cdcVcom.startTransactions =
            x.1.cdcVcom.startTransactions := by
          rw [hsetup, (Setup.attachTo_rest _).2.2.2.2, (Setup.setConfiguration_rest _).2.1]
          rfl
        have hline : lineState x.2 (.setConfiguration wValue) = x.2 := if_neg hzero
        simp only [GuardSound, PortKept, monitoredStep, transmitGuard_iff, hattach, hstart, hline,
          hdelivers, hone, true_and, true_imp_iff]
      · refine iff_of_true (guardSound_of_eq h ?_ (if_neg hzero)) fun _ h => absurd h hone
        rw [hsetup, Setup.attachTo, if_neg hzero, if_neg hone, (Setup.setConfiguration_rest _).2.1]
    · refine iff_of_true (guardSound_of_not_attach ?_) fun h => absurd h hdelivers
      rw [setup_step, Setup.step, if_neg hdelivers]
      exact Bool.eq_false_iff.mpr fun hattach => hdelivers (h.addressed.delivers hattach)
  | setControlLineState wValue wIndex =>
    have hsetup : (step x.1 (.setControlLineState wValue wIndex)).setup = _ := setup_step _ _
    by_cases hindex : wIndex.toUInt8 = USB_CDC_VCOM_COMM_INTERFACE_INDEX
    · have hours : ¬ wIndex.toUInt8 ≠ x.1.setup.interfaceNumber := by
        rw [h.addressed.interfaceNumber]
        exact not_not.mpr hindex
      rw [Setup.step, if_neg hours, Setup.start] at hsetup
      by_cases hattach : x.1.cdcVcom.attach
      · rw [if_pos (show x.1.setup.cdcVcom.attach = true from hattach)] at hsetup
        have hguard : (step x.1 (.setControlLineState wValue wIndex)).transmitGuard := by
          rw [transmitGuard_iff, hsetup]
          exact ⟨hattach, rfl⟩
        have hline : lineState x.2 (.setControlLineState wValue wIndex) = some wValue :=
          if_pos hindex
        simp only [GuardSound, PortKept, monitoredStep, hguard, hline, hindex, hattach, PortOpen,
          true_imp_iff, Option.some.injEq, exists_eq_left']
      · rw [if_neg (show ¬ x.1.setup.cdcVcom.attach = true from hattach)] at hsetup
        refine iff_of_true (guardSound_of_not_attach ?_) fun _ h => absurd h hattach
        rw [hsetup]
        exact Bool.eq_false_iff.mpr hattach
    · have hother : wIndex.toUInt8 ≠ x.1.setup.interfaceNumber := by
        rw [h.addressed.interfaceNumber]
        exact hindex
      rw [Setup.step, if_pos hother] at hsetup
      refine iff_of_true (guardSound_of_eq h ?_ (if_neg hindex)) fun h => absurd h hindex
      rw [hsetup]
  | appTask text =>
    refine iff_of_true (guardSound_of_eq h ?_ rfl) trivial
    rw [setup_step, Setup.step, Setup.appTask]
    split_ifs <;> rfl
  | token p => exact iff_of_true (guardSound_of_eq h (congrArg _ (setup_step _ _)) rfl) trivial
  | complete p n =>
    exact iff_of_true (guardSound_of_eq h (congrArg _ (setup_step _ _)) rfl) trivial

lemma portTracked_step (h : PortTracked x) (he : PortKept x e) :
    PortTracked (monitoredStep x e) where
  addressed := by
    show (step x.1 e).setup.Addressed
    rw [setup_step]
    exact h.addressed.step e
  sound := (guardSound_iff h).mpr he

/-- In a run from power-up APPTask may send only while the host has the port open, exactly if the
host never closes the port of an attached device and never configures a device that has begun to
send without opening its port. -/
theorem guard_sound_iff (acmInfo : AcmInfo) (answers : ℕ → UsbStatus) (es : List Event) :
    EveryStep monitoredStep GuardSound (USB_DeviceApplicationInit acmInfo answers, none) es ↔
      EveryStep monitoredStep PortKept (USB_DeviceApplicationInit acmInfo answers, none) es :=
  everyStep_iff_of_inv PortTracked (fun _ _ h he => portTracked_step h he)
    (fun _ _ h => guardSound_iff h)
    ⟨⟨fun hattach => (by cases hattach), rfl⟩, fun hguard => (by cases hguard)⟩

/-- A terminal that opens the port without DTR: the request clears the DTE-present bit, and APPTask
starts to send. -/
theorem guard_without_dte :
    ¬ EveryStep monitoredStep GuardSound
      (USB_DeviceApplicationInit ⟨[], false, 0, 0⟩ fun _ => .Success, none)
      [.setAddress 5, .setConfiguration 1, .setControlLineState 0 0] := by
  intro h
  obtain ⟨-, -, hguard, -⟩ := h
  obtain ⟨wValue, hvalue, hdte⟩ := hguard (by decide)
  obtain rfl : 0 = wValue := Option.some.inj hvalue
  exact absurd hdte (by decide)

end RT1064.Usb
