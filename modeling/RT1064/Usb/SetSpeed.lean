import Mathlib.Data.List.GetD
import RT1064.Usb.Descriptor

/-!
# The speed update

On a well-formed configuration descriptor the loop of `USB_DeviceSetSpeed` visits each descriptor
once and edits it in place, whatever the descriptors are; the last call decides.
-/

namespace RT1064.Usb

open Core

/-! ### Well-formed configuration descriptors -/

/-- A descriptor as the loop expects it. -/
structure IsDescriptor (d : List UInt8) : Prop where
  two_le : 2 ≤ d.length
  bLength_eq : bLength d 0 = d.length
  endpoint_length : byteAt d 1 = USB_DESCRIPTOR_TYPE_ENDPOINT → d.length = 7

/-- A concatenation of descriptors. -/
structure ConfigurationDescriptor where
  parts : List (List UInt8)
  wellFormed : ∀ d ∈ parts, IsDescriptor d

def ConfigurationDescriptor.bytes (c : ConfigurationDescriptor) : List UInt8 := c.parts.flatten

/-! ### Editing in place -/

lemma byteAt_append (pre post : List UInt8) {d : List UInt8} {k : ℕ} (hk : k < d.length) :
    byteAt (pre ++ (d ++ post)) (pre.length + k) = byteAt d k := by
  unfold byteAt
  rw [List.getD_append_right _ _ _ _ (by omega), Nat.add_sub_cancel_left,
    List.getD_append _ _ _ _ hk]

lemma set_append (pre post : List UInt8) {d : List UInt8} {k : ℕ} (hk : k < d.length)
    (x : UInt8) : (pre ++ (d ++ post)).set (pre.length + k) x = pre ++ (d.set k x ++ post) := by
  rw [List.set_append_right _ _ (by omega), Nat.add_sub_cancel_left, List.set_append_left _ _ hk]

lemma putShort_append (pre post : List UInt8) {d : List UInt8} {k : ℕ} (hk : k + 1 < d.length)
    (n : UInt16) :
    putShort (pre ++ (d ++ post)) (pre.length + k) n = pre ++ (putShort d k n ++ post) := by
  unfold putShort
  rw [Nat.add_assoc, set_append pre post hk, set_append pre post (by simp; omega)]

@[simp] lemma length_putShort (b : List UInt8) (i : ℕ) (n : UInt16) :
    (putShort b i n).length = b.length := by
  simp [putShort]

@[simp] lemma length_visit (v : SpeedValues) (b : List UInt8) (p : ℕ) :
    (visit v b p).length = b.length := by
  simp only [visit]
  split_ifs <;> simp

/-- What the loop body does to one descriptor. -/
def patch (v : SpeedValues) (d : List UInt8) : List UInt8 := visit v d 0

lemma visit_append (v : SpeedValues) (pre post : List UInt8) {d : List UInt8}
    (h : IsDescriptor d) :
    visit v (pre ++ (d ++ post)) pre.length = pre ++ (patch v d ++ post) := by
  have htwo := h.two_le
  have htype := byteAt_append pre post (show 1 < d.length by omega)
  by_cases hep : byteAt d 1 = USB_DESCRIPTOR_TYPE_ENDPOINT
  · have hlen := h.endpoint_length hep
    have haddr := byteAt_append pre post (show 2 < d.length by omega)
    simp only [patch, visit, htype, haddr, Nat.zero_add, if_pos hep]
    rw [set_append pre post (by omega), putShort_append pre post (by simp; omega)]
    split_ifs
    all_goals first
      | rfl
      | rw [putShort_append pre post (by simp; omega)]
  · simp only [patch, visit, htype, Nat.zero_add, if_neg hep]

/-- The bytes that depend on the speed: `wMaxPacketSize` of the three endpoints, and `bInterval`
of the interrupt endpoint. -/
def SpeedByte (d : List UInt8) (o : ℕ) : Prop :=
  byteAt d 1 = USB_DESCRIPTOR_TYPE_ENDPOINT ∧
    ((o = 4 ∨ o = 5) ∧
        (isInterruptIn (byteAt d 2) ∨ isBulkIn (byteAt d 2) ∨ isBulkOut (byteAt d 2)) ∨
      o = 6 ∧ isInterruptIn (byteAt d 2))

/-- The seven bytes of an endpoint descriptor. -/
lemma eq_of_length_seven {d : List UInt8} (h : d.length = 7) :
    ∃ a0 a1 a2 a3 a4 a5 a6, d = [a0, a1, a2, a3, a4, a5, a6] := by
  match d, h with
  | [a0, a1, a2, a3, a4, a5, a6], _ => exact ⟨a0, a1, a2, a3, a4, a5, a6, rfl⟩

lemma not_isBulkIn {addr : UInt8} (h : isInterruptIn addr) : ¬ isBulkIn addr := by
  intro h'
  exact absurd (h.2.trans h'.2.symm) (by decide)

lemma not_isBulkOut {addr : UInt8} (h : isInterruptIn addr) : ¬ isBulkOut addr := by
  intro h'
  exact absurd (h.2.trans h'.2.symm) (by decide)

/-- The new size of the endpoint, where the loop body knows the endpoint. -/
def newSize (v : SpeedValues) (addr : UInt8) : Option UInt16 :=
  if isInterruptIn addr then some v.interruptInPacketSize
  else if isBulkIn addr then some v.bulkInPacketSize
  else if isBulkOut addr then some v.bulkOutPacketSize
  else none

lemma newSize_eq_none {v : SpeedValues} {addr : UInt8} :
    newSize v addr = none ↔ ¬ (isInterruptIn addr ∨ isBulkIn addr ∨ isBulkOut addr) := by
  unfold newSize
  split_ifs <;> simp_all

lemma patch_endpoint (v : SpeedValues) (a0 a2 a3 a4 a5 a6 : UInt8) :
    patch v [a0, USB_DESCRIPTOR_TYPE_ENDPOINT, a2, a3, a4, a5, a6] =
      match newSize v a2 with
      | none => [a0, USB_DESCRIPTOR_TYPE_ENDPOINT, a2, a3, a4, a5, a6]
      | some n => [a0, USB_DESCRIPTOR_TYPE_ENDPOINT, a2, a3, n.toUInt8, (n >>> 8).toUInt8,
          if isInterruptIn a2 then v.interruptInInterval else a6] := by
  have haddr : byteAt [a0, USB_DESCRIPTOR_TYPE_ENDPOINT, a2, a3, a4, a5, a6] (0 + 2) = a2 := rfl
  have htype : byteAt [a0, USB_DESCRIPTOR_TYPE_ENDPOINT, a2, a3, a4, a5, a6] (0 + 1) =
      USB_DESCRIPTOR_TYPE_ENDPOINT := rfl
  simp only [patch, visit, newSize, htype, haddr, if_true]
  by_cases hint : isInterruptIn a2
  · simp only [if_pos hint, if_neg (not_isBulkIn hint), if_neg (not_isBulkOut hint)]
    rfl
  simp only [if_neg hint]
  by_cases hin : isBulkIn a2
  · simp only [if_pos hin]
    rfl
  simp only [if_neg hin]
  by_cases hout : isBulkOut a2
  · simp only [if_pos hout]
    rfl
  · simp only [if_neg hout]

/-- Descriptors that are not an endpoint's are left alone. -/
lemma patch_other (v : SpeedValues) {d : List UInt8}
    (h : byteAt d 1 ≠ USB_DESCRIPTOR_TYPE_ENDPOINT) : patch v d = d := by
  simp only [patch, visit, Nat.zero_add, if_neg h]

/-- An endpoint descriptor, byte by byte. -/
lemma IsDescriptor.eq_endpoint {d : List UInt8} (h : IsDescriptor d)
    (hep : byteAt d 1 = USB_DESCRIPTOR_TYPE_ENDPOINT) :
    ∃ a0 a2 a3 a4 a5 a6, d = [a0, USB_DESCRIPTOR_TYPE_ENDPOINT, a2, a3, a4, a5, a6] := by
  obtain ⟨a0, a1, a2, a3, a4, a5, a6, rfl⟩ := eq_of_length_seven (h.endpoint_length hep)
  obtain rfl : a1 = USB_DESCRIPTOR_TYPE_ENDPOINT := hep
  exact ⟨a0, a2, a3, a4, a5, a6, rfl⟩

/-- The patched descriptor shows another byte only where the speed matters. -/
lemma IsDescriptor.speedByte {d : List UInt8} (h : IsDescriptor d) {v : SpeedValues} {o : ℕ}
    (hne : (patch v d)[o]? ≠ d[o]?) : SpeedByte d o := by
  by_cases hep : byteAt d 1 = USB_DESCRIPTOR_TYPE_ENDPOINT
  · obtain ⟨a0, a2, a3, a4, a5, a6, rfl⟩ := h.eq_endpoint hep
    rw [patch_endpoint] at hne
    refine ⟨rfl, ?_⟩
    show (o = 4 ∨ o = 5) ∧ (isInterruptIn a2 ∨ isBulkIn a2 ∨ isBulkOut a2) ∨
      o = 6 ∧ isInterruptIn a2
    cases hv : newSize v a2 with
    | none =>
      rw [hv] at hne
      exact absurd rfl hne
    | some n =>
      have hknown : isInterruptIn a2 ∨ isBulkIn a2 ∨ isBulkOut a2 := by
        by_contra hnot
        rw [newSize_eq_none.mpr hnot] at hv
        cases hv
      rw [hv] at hne
      match o with
      | 0 | 1 | 2 | 3 => exact absurd rfl hne
      | 4 | 5 => exact Or.inl ⟨by simp, hknown⟩
      | 6 =>
        refine Or.inr ⟨rfl, ?_⟩
        by_contra hint
        simp [hint] at hne
      | o + 7 => exact absurd rfl hne
  · rw [patch_other v hep] at hne
    exact absurd rfl hne

/-- What was patched is patched over. -/
lemma IsDescriptor.patch_patch {d : List UInt8} (h : IsDescriptor d) (v v' : SpeedValues) :
    patch v' (patch v d) = patch v' d := by
  by_cases hep : byteAt d 1 = USB_DESCRIPTOR_TYPE_ENDPOINT
  · obtain ⟨a0, a2, a3, a4, a5, a6, rfl⟩ := h.eq_endpoint hep
    have hnone : newSize v a2 = none ↔ newSize v' a2 = none := by
      rw [newSize_eq_none, newSize_eq_none]
    rw [patch_endpoint, patch_endpoint]
    cases hv : newSize v a2 with
    | none => rw [patch_endpoint, hnone.mp hv]
    | some n =>
      rw [patch_endpoint]
      cases hv' : newSize v' a2 with
      | none => rw [hnone.mpr hv'] at hv; cases hv
      | some n' =>
        simp only
        split_ifs <;> rfl
  · rw [patch_other v hep]

/-- A patched descriptor is a descriptor. -/
lemma IsDescriptor.patch {d : List UInt8} (h : IsDescriptor d) (v : SpeedValues) :
    IsDescriptor (patch v d) := by
  have hlen : (Usb.patch v d).length = d.length := length_visit v d 0
  have hbyte : ∀ i, i < 2 → byteAt (Usb.patch v d) i = byteAt d i := by
    intro i hi
    have hsame : (Usb.patch v d)[i]? = d[i]? := by
      by_contra hne
      obtain ⟨-, ⟨ho, -⟩ | ⟨ho, -⟩⟩ := h.speedByte hne
      all_goals omega
    unfold byteAt
    rw [List.getD_eq_getElem?_getD, List.getD_eq_getElem?_getD, hsame]
  refine ⟨by rw [hlen]; exact h.two_le, ?_, ?_⟩
  · rw [hlen, ← h.bLength_eq, bLength, bLength, hbyte 0 (by omega)]
  · rw [hlen, hbyte 1 (by omega)]
    exact h.endpoint_length

/-! ### The loop over all descriptors -/

lemma editsInPlace (v : SpeedValues) : EditsInPlace (visit v) bLength IsDescriptor (patch v) where
  edit_eq pre r post h := visit_append v pre post h
  size_eq pre r post h := by
    have htwo := (h.patch v).two_le
    have hlen : (patch v r).length = r.length := length_visit v r 0
    have hbyte := byteAt_append pre post (show 0 < (patch v r).length by omega)
    rw [← hlen, ← (h.patch v).bLength_eq, bLength, bLength, ← hbyte, Nat.add_zero]
  length_eq r _ := length_visit v r 0
  two_le r h := h.two_le

namespace ConfigurationDescriptor

variable (c : ConfigurationDescriptor)

/-- The configuration descriptor after the loop. -/
def patch (v : SpeedValues) : ConfigurationDescriptor where
  parts := c.parts.map (Usb.patch v)
  wellFormed := by
    intro d hd
    obtain ⟨d', hd', rfl⟩ := List.mem_map.mp hd
    exact (c.wellFormed d' hd').patch v

lemma length_parts_le : c.parts.length ≤ c.bytes.length := by
  obtain ⟨parts, h⟩ := c
  unfold bytes
  induction parts with
  | nil => simp
  | cons d ds ih =>
    have hd := (h d List.mem_cons_self).two_le
    have hds := ih fun d' hd' => h d' (List.mem_cons_of_mem d hd')
    simp only [List.length_cons, List.flatten_cons, List.length_append] at hds ⊢
    omega

/-- The loop ends, having come to the descriptors' first bytes in order. -/
lemma walkDescriptors_bytes (v : SpeedValues) :
    walkDescriptors v c.bytes = some ((c.patch v).bytes, starts 0 c.parts) := by
  have hfuel : c.parts.length < c.bytes.length + 1 := Nat.lt_succ_of_le c.length_parts_le
  exact (editsInPlace v).walk_flatten c.wellFormed hfuel []

/-- A byte that differs afterwards is a `SpeedByte` of one of the descriptors. -/
lemma patch_ne {v : SpeedValues} {i : ℕ} (h : (c.patch v).bytes[i]? ≠ c.bytes[i]?) :
    ∃ pre d post o, c.parts = pre ++ d :: post ∧ i = pre.flatten.length + o ∧ o < d.length ∧
      SpeedByte d o := by
  obtain ⟨pre, d, post, o, heq, hi, ho, hne⟩ :=
    exists_of_flatten_map_ne (fun d _ => length_visit v d 0) h
  have hd : d ∈ c.parts := by rw [heq]; simp
  exact ⟨pre, d, post, o, heq, hi, ho, (c.wellFormed d hd).speedByte hne⟩

lemma patch_patch (v v' : SpeedValues) : (c.patch v).patch v' = c.patch v' := by
  unfold patch
  congr 1
  rw [List.map_map]
  exact List.map_congr_left fun d hd => (c.wellFormed d hd).patch_patch v v'

end ConfigurationDescriptor

/-! ### Sequences of calls -/

variable {c : ConfigurationDescriptor} {d : Descriptors}

/-- One call on a well-formed descriptor. -/
lemma setSpeed_eq (hd : d.configuration = c.bytes) (speed : UInt8) :
    USB_DeviceSetSpeed d speed =
      some ⟨(c.patch (SpeedValues.of speed)).bytes,
        d.cicEndpoints.map (setCicEndpoint (SpeedValues.of speed)),
        d.dicEndpoints.map (setDicEndpoint (SpeedValues.of speed))⟩ := by
  rw [USB_DeviceSetSpeed, hd, c.walkDescriptors_bytes]
  rfl

lemma setDicEndpoint_setDicEndpoint (v v' : SpeedValues) (e : EndpointStruct) :
    setDicEndpoint v' (setDicEndpoint v e) = setDicEndpoint v' e := by
  by_cases he : e.endpointAddress &&& USB_DESCRIPTOR_ENDPOINT_ADDRESS_DIRECTION_MASK ≠ 0
  · simp only [setDicEndpoint, if_pos he]
  · simp only [setDicEndpoint, if_neg he]

/-- The second of two calls undoes the first. -/
lemma setSpeed_setSpeed (hd : d.configuration = c.bytes) (speed speed' : UInt8) :
    (USB_DeviceSetSpeed d speed).bind (USB_DeviceSetSpeed · speed') =
      USB_DeviceSetSpeed d speed' := by
  rw [setSpeed_eq hd, setSpeed_eq hd, Option.bind_some,
    setSpeed_eq (c := c.patch (SpeedValues.of speed)) rfl, c.patch_patch, List.map_map,
    List.map_map]
  congr 2
  apply List.map_congr_left
  intro e _
  exact setDicEndpoint_setDicEndpoint _ _ e

/-- Of any sequence of calls the last one decides. -/
lemma foldlM_setSpeed (hd : d.configuration = c.bytes) (speeds : List UInt8) (speed : UInt8) :
    (speeds ++ [speed]).foldlM USB_DeviceSetSpeed d = USB_DeviceSetSpeed d speed := by
  induction speeds generalizing c d with
  | nil =>
    rw [List.nil_append, List.foldlM_cons]
    exact bind_pure _
  | cons s speeds ih =>
    have hs := setSpeed_eq hd s
    rw [List.cons_append, List.foldlM_cons, hs, ← setSpeed_setSpeed hd s speed, hs]
    exact ih rfl

/-! ### The device's own descriptor -/

/-- `g_UsbDeviceConfigurationDescriptor` is well formed. -/
def ownConfiguration : ConfigurationDescriptor where
  parts := configurationDescriptors
  wellFormed := by
    intro d hd
    simp only [configurationDescriptors, List.mem_cons, List.not_mem_nil, or_false] at hd
    rcases hd with rfl | rfl | rfl | rfl | rfl | rfl | rfl | rfl | rfl | rfl <;>
      exact ⟨by decide, by decide, by decide⟩

/-- What a host reads out of a configuration descriptor: address and `wMaxPacketSize` of each
endpoint descriptor. -/
def advertised (b : List UInt8) : ℕ → ℕ → List (UInt8 × UInt16)
  | 0, _ => []
  | fuel + 1, p =>
    if p < b.length then
      (if byteAt b (p + 1) = USB_DESCRIPTOR_TYPE_ENDPOINT then
        [(byteAt b (p + 2), (byteAt b (p + 5)).toUInt16 <<< 8 ||| (byteAt b (p + 4)).toUInt16)]
      else []) ++ advertised b fuel (p + bLength b p)
    else []

/-- Descriptor and tables tell the same sizes, and the receive size fits the buffer. -/
structure Descriptors.Consistent (d : Descriptors) : Prop where
  sizes : advertised d.configuration d.configuration.length 0 =
    (d.cicEndpoints ++ d.dicEndpoints).map fun e => (e.endpointAddress, e.maxPacketSize)
  receive_le : d.dicPacketSize 1 ≤ DATA_BUFF_SIZE

/-- The tables that calls of `USB_DeviceSetSpeed` can lead to. -/
def Descriptors.Reached (d : Descriptors) : Prop :=
  ∃ speeds : List UInt8, speeds.foldlM USB_DeviceSetSpeed Descriptors.initial = some d

lemma Descriptors.reached_initial : Descriptors.initial.Reached := ⟨[], rfl⟩

/-- Only three values of the tables occur. -/
lemma Descriptors.Reached.cases (h : d.Reached) :
    d = Descriptors.initial ∨ ∃ speed, USB_DeviceSetSpeed Descriptors.initial speed = some d := by
  obtain ⟨speeds, h⟩ := h
  rcases List.eq_nil_or_concat speeds with rfl | ⟨speeds, speed, rfl⟩
  · exact Or.inl (Option.some.inj h).symm
  · rw [List.concat_eq_append,
      foldlM_setSpeed (c := ownConfiguration) (d := Descriptors.initial) rfl] at h
    exact Or.inr ⟨speed, h⟩

/-- The loop on reached tables always ends. -/
lemma Descriptors.Reached.setSpeed (h : d.Reached) (speed : UInt8) :
    ∃ d', USB_DeviceSetSpeed d speed = some d' ∧ d'.Reached := by
  obtain ⟨speeds, h⟩ := h
  have hlast := foldlM_setSpeed (d := Descriptors.initial) (c := ownConfiguration) rfl speeds speed
  rw [setSpeed_eq (c := ownConfiguration) rfl] at hlast
  refine ⟨_, ?_, speeds ++ [speed], hlast⟩
  rw [List.foldlM_append, h] at hlast
  simpa using hlast

lemma Descriptors.Reached.foldlM (h : d.Reached) (speeds : List UInt8) :
    ∃ d', speeds.foldlM USB_DeviceSetSpeed d = some d' ∧ d'.Reached := by
  induction speeds generalizing d with
  | nil => exact ⟨d, rfl, h⟩
  | cons speed speeds ih =>
    obtain ⟨d', hd', hreached⟩ := h.setSpeed speed
    obtain ⟨d'', hd'', hreached'⟩ := ih hreached
    exact ⟨d'', by rw [List.foldlM_cons, hd']; exact hd'', hreached'⟩

/-- In reached tables only the sizes and the interval are open. -/
lemma Descriptors.Reached.endpoints (h : d.Reached) : ∃ v, (v = FS_CDC_VCOM ∨ v = HS_CDC_VCOM) ∧
    d.cicEndpoints = g_UsbDeviceCdcVcomCicEndpoints.map (setCicEndpoint v) ∧
    d.dicEndpoints = g_UsbDeviceCdcVcomDicEndpoints.map (setDicEndpoint v) := by
  rcases h.cases with rfl | ⟨speed, h⟩
  · exact ⟨FS_CDC_VCOM, Or.inl rfl, rfl, rfl⟩
  · rw [setSpeed_eq (c := ownConfiguration) rfl] at h
    obtain rfl := Option.some.inj h
    refine ⟨SpeedValues.of speed, ?_, rfl, rfl⟩
    by_cases hs : USB_SPEED_HIGH = speed
    · exact Or.inr (if_pos hs)
    · exact Or.inl (if_neg hs)

lemma Descriptors.Reached.consistent (h : d.Reached) : d.Consistent := by
  rcases h.cases with rfl | ⟨speed, h⟩
  · exact ⟨by decide, by decide⟩
  · rw [setSpeed_eq (c := ownConfiguration) rfl] at h
    obtain rfl := Option.some.inj h
    by_cases hs : USB_SPEED_HIGH = speed
    · rw [SpeedValues.of, if_pos hs]
      exact ⟨by decide, by decide⟩
    · rw [SpeedValues.of, if_neg hs]
      exact ⟨by decide, by decide⟩

end RT1064.Usb
