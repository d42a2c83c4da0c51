import MyCub.Drivers
import MyCub.Interleaving

/-!
# Acquisitions from the analog to digital converter

An acquisition configures the converter and then reads from it.  The result of the
configuration is not looked at, so that a read can go on with what an earlier
acquisition left.  The state between acquisitions is what the driver keeps and the
channel that its sequencer converts; the acquisitions that return samples of the
requested channel are characterised for every state a history can lead to.
-/

namespace MyCub.Acquisition

open CharDevice Drivers Interleaving

structure Sample where
  offset : ℕ
  channel : UInt8
  value : UInt16
  deriving DecidableEq, Repr

/-- A read divides by zero, waits for a sequencer that was never enabled, or
returns what it stored. -/
inductive Reading where
  | dividedByZero
  | waiting
  | returned (ret : ℤ) (stored : List Sample)
  deriving DecidableEq, Repr

/-- The sampling loop from sample `i` on, with at most so many samples to come. -/
def sampleFrom (convert : UInt8 → ℕ → UInt16) (channel : UInt8)
    (buflen : ℕ) : ℕ → ℕ → List Sample
  | 0, _ => []
  | left + 1, i =>
      if i * 2 < buflen then
        ⟨i * 2, channel, convert channel i⟩ ::
          sampleFrom convert channel buflen left (i + 1)
      else []

def adclm4fRead (convert : UInt8 → ℕ → UInt16) (info : AdcInfo)
    (sequencer : Option UInt8) (buflen : UInt32) : Reading :=
  if info.freq = 0 then .dividedByZero
  else if info.nsamples = 0 ∨ buflen = 0 then .returned 0 []
  else
    match sequencer with
    | none => .waiting
    | some channel =>
        let stored := sampleFrom convert channel buflen.toNat
          info.nsamples.toNat 0
        .returned stored.length stored

/-- The sequencer converts no channel until the first configuration. -/
structure Converter where
  fdAdc : ℤ
  device : Device AdcInfo AdcInfo
  sequencer : Option UInt8

/-- The arguments of an acquisition, and whether a signal interrupts its
configuration. -/
structure Acquire where
  channel : ℤ
  freq : UInt32
  len : UInt32
  interrupted : Bool

/-- The record that is passed down: its channel is one byte. -/
def Acquire.info (q : Acquire) : AdcInfo where
  channel := UInt8.ofInt q.channel
  nsamples := q.len
  freq := q.freq

def getRawAnalogData (convert : UInt8 → ℕ → UInt16) (q : Acquire)
    (c : Converter) : Reading × Converter :=
  if c.fdAdc < 0 then (.returned (-1) [], c)
  else
    match ioctl adcRequests ⟨ADCIOC_SETCONF, q.info, q.interrupted⟩
      c.device with
    | .returned ret _ device =>
        let sequencer :=
          if ret = 0 then some q.info.channel else c.sequencer
        (adclm4fRead convert device.lower sequencer (q.len * 2),
          { c with device := device, sequencer := sequencer })
    | _ => (.waiting, c)

/-- Histories of acquisitions, each of which has returned. -/
def converterMachine (convert : UInt8 → ℕ → UInt16) :
    Machine Converter Acquire where
  Start := fun c => c.device = openedAdc ∧ c.sequencer = none
  step := fun c q =>
    match getRawAnalogData convert q c with
    | (.returned _ _, c') => some c'
    | _ => none

/-! ## The sampling loop -/

section Samples

variable {convert : UInt8 → ℕ → UInt16} {channel : UInt8} {buflen : ℕ}

theorem mem_sampleFrom_iff {left i : ℕ} {s : Sample} :
    s ∈ sampleFrom convert channel buflen left i ↔
      ∃ j, i ≤ j ∧ j < i + left ∧ j * 2 < buflen ∧
        s = ⟨j * 2, channel, convert channel j⟩ := by
  induction left generalizing i with
  | zero =>
      constructor
      · intro hmem
        cases hmem
      · rintro ⟨j, hle, hlt, -, -⟩
        omega
  | succ left ih =>
      rw [sampleFrom]
      split_ifs with hroom
      · rw [List.mem_cons, ih]
        constructor
        · rintro (rfl | ⟨j, hle, hlt, hj, rfl⟩)
          · exact ⟨i, le_rfl, by omega, hroom, rfl⟩
          · exact ⟨j, by omega, by omega, hj, rfl⟩
        · rintro ⟨j, hle, hlt, hj, rfl⟩
          rcases Nat.eq_or_lt_of_le hle with rfl | hgt
          · exact .inl rfl
          · exact .inr ⟨j, hgt, by omega, hj, rfl⟩
      · constructor
        · intro hmem
          cases hmem
        · rintro ⟨j, hle, hlt, hj, rfl⟩
          omega

theorem length_sampleFrom (left i : ℕ) :
    (sampleFrom convert channel buflen left i).length =
      min left ((buflen + 1) / 2 - i) := by
  induction left generalizing i with
  | zero => simp [sampleFrom]
  | succ left ih =>
      rw [sampleFrom]
      split_ifs with hroom
      · rw [List.length_cons, ih]
        omega
      · rw [List.length_nil]
        omega

/-- The last sample of an odd buffer is the one that may not fit. -/
theorem sampleFrom_fits_iff (n : ℕ) :
    (∀ s ∈ sampleFrom convert channel buflen n 0, s.offset + 2 ≤ buflen) ↔
      buflen % 2 = 0 ∨ n ≤ buflen / 2 := by
  constructor
  · intro hfits
    by_contra hodd
    have hmem : ⟨buflen / 2 * 2, channel, convert channel (buflen / 2)⟩ ∈
        sampleFrom convert channel buflen n 0 :=
      mem_sampleFrom_iff.mpr
        ⟨buflen / 2, by omega, by omega, by omega, rfl⟩
    have hlast := hfits _ hmem
    dsimp only at hlast
    omega
  · intro hroom s hs
    obtain ⟨j, -, hlt, hj, rfl⟩ := mem_sampleFrom_iff.mp hs
    dsimp only
    omega

end Samples

/-! ## Reads -/

/-- The result of an acquisition that a caller can rely on. -/
def Reading.Right (q : Acquire) : Reading → Prop
  | .returned ret stored =>
      ret ≤ 0 ∨ ret = stored.length ∧ stored.length ≤ q.len.toNat ∧
        ∀ s ∈ stored, (s.channel.toNat : ℤ) = q.channel
  | _ => False

/-- A read that neither divides by zero nor stores a byte beyond its buffer. -/
def Reading.Safe (buflen : UInt32) : Reading → Prop
  | .dividedByZero => False
  | .waiting => True
  | .returned _ stored => ∀ s ∈ stored, s.offset + 2 ≤ buflen.toNat

theorem adclm4fRead_safe_iff (convert : UInt8 → ℕ → UInt16) (info : AdcInfo)
    (sequencer : Option UInt8) (buflen : UInt32) :
    (adclm4fRead convert info sequencer buflen).Safe buflen ↔
      info.freq ≠ 0 ∧ (sequencer = none ∨ buflen.toNat % 2 = 0 ∨
        info.nsamples.toNat ≤ buflen.toNat / 2) := by
  unfold adclm4fRead
  split_ifs with hfreq hnone
  · exact iff_of_false id fun h => h.1 hfreq
  · refine iff_of_true ?_ ⟨hfreq, .inr ?_⟩
    · intro s hs
      cases hs
    · rcases hnone with hsamples | hroom
      · rw [hsamples]
        exact .inr (Nat.zero_le _)
      · rw [hroom]
        exact .inl rfl
  · cases sequencer with
    | none => exact iff_of_true trivial ⟨hfreq, .inl rfl⟩
    | some channel =>
        simp only [Reading.Safe, sampleFrom_fits_iff, hfreq, reduceCtorEq,
          ne_eq, not_false_eq_true, true_and, false_or]

theorem length_sampleFrom_le {convert : UInt8 → ℕ → UInt16}
    {channel : UInt8} (len : UInt32) (n : ℕ) :
    (sampleFrom convert channel (len * 2).toNat n 0).length ≤ len.toNat := by
  have hbytes : (len * 2).toNat = len.toNat * 2 % 2 ^ 32 :=
    UInt32.toNat_mul len 2
  have hle := Nat.mod_le (len.toNat * 2) (2 ^ 32)
  rw [length_sampleFrom, hbytes]
  omega

theorem adclm4fRead_right_iff (convert : UInt8 → ℕ → UInt16) (q : Acquire)
    (info : AdcInfo) (sequencer : Option UInt8) :
    (adclm4fRead convert info sequencer (q.len * 2)).Right q ↔
      info.freq ≠ 0 ∧ (info.nsamples = 0 ∨ q.len * 2 = 0 ∨
        ∃ channel, sequencer = some channel ∧
          (channel.toNat : ℤ) = q.channel) := by
  unfold adclm4fRead
  split_ifs with hfreq hnone
  · exact iff_of_false id fun h => h.1 hfreq
  · refine iff_of_true (.inl le_rfl) ⟨hfreq, ?_⟩
    exact hnone.imp_right .inl
  · obtain ⟨hsamples, hroom⟩ := not_or.mp hnone
    cases sequencer with
    | none =>
        refine iff_of_false id ?_
        rintro ⟨-, h | h | ⟨channel, h, -⟩⟩
        · exact hsamples h
        · exact hroom h
        · cases h
    | some channel =>
        have hn : 0 < info.nsamples.toNat :=
          Nat.pos_of_ne_zero fun h => hsamples (UInt32.toNat_inj.mp h)
        have hbuflen : 0 < (q.len * 2).toNat :=
          Nat.pos_of_ne_zero fun h => hroom (UInt32.toNat_inj.mp h)
        have hfirst : ⟨0 * 2, channel, convert channel 0⟩ ∈
            sampleFrom convert channel (q.len * 2).toNat
              info.nsamples.toNat 0 :=
          mem_sampleFrom_iff.mpr ⟨0, le_rfl, by omega, by omega, rfl⟩
        constructor
        · rintro (hnonpos | ⟨-, -, hchannel⟩)
          · have := List.length_pos_of_mem hfirst
            omega
          · exact ⟨hfreq, .inr (.inr ⟨channel, rfl, hchannel _ hfirst⟩)⟩
        · rintro ⟨-, h | h | ⟨channel', hsome, hchannel⟩⟩
          · exact absurd h hsamples
          · exact absurd h hroom
          · cases hsome
            refine .inr ⟨rfl, length_sampleFrom_le q.len _, ?_⟩
            intro s hs
            obtain ⟨j, -, -, -, rfl⟩ := mem_sampleFrom_iff.mp hs
            exact hchannel

/-! ## Acquisitions -/

/-- The driver takes the configuration of the acquisition. -/
def Acquire.Accepted (q : Acquire) : Prop :=
  q.interrupted = false ∧ q.channel % 256 < 12

instance (q : Acquire) : Decidable q.Accepted := by
  unfold Acquire.Accepted
  infer_instance

/-- The acquisitions that return as they should: without a device; with the
configuration taken, at a frequency other than zero and for a channel that
exists; and with the configuration refused, for the channel that an earlier
acquisition has left.  The frequency and the channel do not matter where nothing
is sampled. -/
def Acquire.Sound (q : Acquire) (c : Converter) : Prop :=
  c.fdAdc < 0 ∨
    if q.Accepted then
      q.freq ≠ 0 ∧ (q.len * 2 = 0 ∨ 0 ≤ q.channel ∧ q.channel < 12)
    else
      c.device.lower.nsamples = 0 ∨ q.len * 2 = 0 ∨
        ∃ channel, c.sequencer = some channel ∧
          (channel.toNat : ℤ) = q.channel

theorem info_channel (q : Acquire) :
    (q.info.channel.toNat : ℤ) = q.channel % 256 := by
  simp only [Acquire.info, UInt8.ofInt, UInt8.toNat_ofNat']
  omega

theorem getRawAnalogData_accepted (convert : UInt8 → ℕ → UInt16)
    {q : Acquire} {c : Converter} (hfd : ¬ c.fdAdc < 0)
    (hsem : 0 < c.device.exclsem) (hq : q.Accepted) :
    getRawAnalogData convert q c =
      (adclm4fRead convert q.info (some q.info.channel) (q.len * 2),
        { c with
          device := { c.device with info := q.info, lower := q.info }
          sequencer := some q.info.channel }) := by
  have hchannel : q.info.channel.toNat < CHANNEL_MAX_COUNT := by
    have := info_channel q
    have := hq.2
    rw [CHANNEL_MAX_COUNT]
    omega
  have hioctl : ioctl adcRequests ⟨ADCIOC_SETCONF, q.info, q.interrupted⟩
      c.device = .returned 0 q.info
        { c.device with info := q.info, lower := q.info } := by
    simp [ioctl, hq.1, hsem, adcRequests, Request.serve, invoke,
      adcConfigure, hchannel, Outcome.post]
  simp only [getRawAnalogData, if_neg hfd, hioctl]
  rfl

theorem getRawAnalogData_refused (convert : UInt8 → ℕ → UInt16)
    {q : Acquire} {c : Converter} (hfd : ¬ c.fdAdc < 0)
    (hsem : 0 < c.device.exclsem) (hq : ¬ q.Accepted) :
    ∃ info, getRawAnalogData convert q c =
      (adclm4fRead convert c.device.lower c.sequencer (q.len * 2),
        { c with device := { c.device with info := info } }) := by
  cases hsignal : q.interrupted with
  | true =>
      have hioctl : ioctl adcRequests
          ⟨ADCIOC_SETCONF, q.info, q.interrupted⟩ c.device =
            .returned (-1) q.info c.device := by
        simp [ioctl, hsignal]
      refine ⟨c.device.info, ?_⟩
      simp only [getRawAnalogData, if_neg hfd, hioctl]
      rfl
  | false =>
      have hchannel : ¬ q.info.channel.toNat < CHANNEL_MAX_COUNT := by
        intro hlt
        have := info_channel q
        rw [CHANNEL_MAX_COUNT] at hlt
        exact hq ⟨hsignal, by omega⟩
      have hioctl : ioctl adcRequests
          ⟨ADCIOC_SETCONF, q.info, q.interrupted⟩ c.device =
            .returned ERANGE q.info { c.device with info := q.info } := by
        simp [ioctl, hsignal, hsem, adcRequests, Request.serve, invoke,
          adcConfigure, hchannel, Outcome.post]
      refine ⟨q.info, ?_⟩
      simp only [getRawAnalogData, if_neg hfd, hioctl]
      rfl

/-- Between acquisitions the device is free and the frequency it keeps is not
zero: the acquisition that would have left a zero there has not returned. -/
structure Converter.Settled (c : Converter) : Prop where
  exclsem : 0 < c.device.exclsem
  freq : c.device.lower.freq ≠ 0

theorem returned_of_step {convert : UInt8 → ℕ → UInt16} {c c' : Converter}
    {q : Acquire} (hstep : (converterMachine convert).step c q = some c') :
    ∃ ret stored, getRawAnalogData convert q c = (.returned ret stored, c') := by
  simp only [converterMachine] at hstep
  split at hstep
  · rename_i ret stored c'' hresult
    cases hstep
    exact ⟨ret, stored, hresult⟩
  · cases hstep

theorem freq_ne_zero_of_returned {convert : UInt8 → ℕ → UInt16}
    {info : AdcInfo} {sequencer : Option UInt8} {buflen : UInt32} {ret : ℤ}
    {stored : List Sample}
    (h : adclm4fRead convert info sequencer buflen = .returned ret stored) :
    info.freq ≠ 0 := by
  intro hzero
  unfold adclm4fRead at h
  rw [if_pos hzero] at h
  cases h

theorem Converter.Settled.step {convert : UInt8 → ℕ → UInt16}
    {c c' : Converter} {q : Acquire} (hc : c.Settled)
    (hstep : (converterMachine convert).step c q = some c') :
    c'.Settled := by
  obtain ⟨ret, stored, hresult⟩ := returned_of_step hstep
  by_cases hfd : c.fdAdc < 0
  · rw [getRawAnalogData, if_pos hfd] at hresult
    cases hresult
    exact hc
  · by_cases hq : q.Accepted
    · rw [getRawAnalogData_accepted convert hfd hc.exclsem hq] at hresult
      obtain ⟨hread, rfl⟩ := Prod.mk.inj hresult
      exact ⟨hc.exclsem, freq_ne_zero_of_returned hread⟩
    · obtain ⟨info, hrefused⟩ :=
        getRawAnalogData_refused convert hfd hc.exclsem hq
      obtain ⟨-, rfl⟩ := Prod.mk.inj (hrefused.symm.trans hresult)
      exact ⟨hc.exclsem, hc.freq⟩

theorem settled_of_reach {convert : UInt8 → ℕ → UInt16} {c : Converter}
    (hreach : (converterMachine convert).Reach anyStep c) : c.Settled := by
  apply hreach.invariant
  · rintro c ⟨hdevice, -⟩
    exact ⟨hdevice ▸ Int.one_pos, hdevice ▸ by decide⟩
  · intro c q c' hc _ hstep
    exact hc.step hstep

theorem Converter.Settled.right_iff {convert : UInt8 → ℕ → UInt16}
    {c : Converter} (hc : c.Settled) (q : Acquire) :
    (getRawAnalogData convert q c).1.Right q ↔ q.Sound c := by
  rw [Acquire.Sound]
  by_cases hfd : c.fdAdc < 0
  · rw [getRawAnalogData, if_pos hfd]
    exact iff_of_true (.inl (by decide)) (.inl hfd)
  · rw [or_iff_right hfd]
    by_cases hq : q.Accepted
    · rw [getRawAnalogData_accepted convert hfd hc.exclsem hq, if_pos hq]
      have hchannel : (∃ channel, some q.info.channel = some channel ∧
          (channel.toNat : ℤ) = q.channel) ↔
            0 ≤ q.channel ∧ q.channel < 12 := by
        have hbyte := info_channel q
        have hlt := hq.2
        constructor
        · rintro ⟨channel, hsome, heq⟩
          cases hsome
          omega
        · intro hrange
          exact ⟨q.info.channel, rfl, by omega⟩
      have hempty : q.info.nsamples = 0 → q.len * 2 = 0 := by
        intro hlen
        rw [show q.len = 0 from hlen]
        rfl
      rw [adclm4fRead_right_iff, hchannel]
      exact and_congr_right' ⟨fun h => h.elim (fun h => .inl (hempty h)) id, .inr⟩
    · obtain ⟨info, hrefused⟩ :=
        getRawAnalogData_refused convert hfd hc.exclsem hq
      rw [hrefused, if_neg hq, adclm4fRead_right_iff]
      exact and_iff_right hc.freq

/-- After any history of acquisitions: which acquisitions return as they should,
and, for whatever the driver keeps, which reads divide by a frequency other than
zero and stay within their buffer. -/
theorem acquisition_right_iff (convert : UInt8 → ℕ → UInt16) (c : Converter)
    (hreach : (converterMachine convert).Reach anyStep c) :
    (∀ q, (getRawAnalogData convert q c).1.Right q ↔ q.Sound c) ∧
    ∀ info sequencer buflen,
      (adclm4fRead convert info sequencer buflen).Safe buflen ↔
        info.freq ≠ 0 ∧ (sequencer = none ∨ buflen.toNat % 2 = 0 ∨
          info.nsamples.toNat ≤ buflen.toNat / 2) :=
  ⟨(settled_of_reach hreach).right_iff, adclm4fRead_safe_iff convert⟩

def openedConverter : Converter where
  fdAdc := 3
  device := openedAdc
  sequencer := none

theorem battery_acquisition_right :
    ∃ c, (converterMachine fun _ _ => 0).run openedConverter
        [⟨3, 500, 4, false⟩] = some c ∧
      c.sequencer = some 3 ∧
      (getRawAnalogData (fun _ _ => 0) ⟨6, 1000, 10, false⟩ c).1.Right
        ⟨6, 1000, 10, false⟩ := by
  have hreach := Machine.Reach.of_schedule
    (M := converterMachine fun _ _ => 0) ⟨rfl, rfl⟩
    (show (converterMachine fun _ _ => 0).run openedConverter
      [⟨3, 500, 4, false⟩] = some _ from rfl)
  exact ⟨_, rfl, rfl, ((acquisition_right_iff _ _ hreach).1
    ⟨6, 1000, 10, false⟩).mpr (.inr (by decide))⟩

/-- After the battery was read on channel 6, a request for channel 20 is answered
with a sample of channel 6; a request at frequency zero divides by it; and two
samples are stored in a buffer of three bytes. -/
theorem acquisition_of_another_channel :
    ((converterMachine fun _ _ => 0).run openedConverter
        [⟨6, 1000, 1, false⟩]).map
          (fun c => (getRawAnalogData (fun _ _ => 0) ⟨20, 1000, 1, false⟩ c).1) =
      some (.returned 1 [⟨0, 6, 0⟩]) ∧
    (getRawAnalogData (fun _ _ => 0) ⟨6, 0, 1, false⟩ openedConverter).1 =
      .dividedByZero ∧
    adclm4fRead (fun _ _ => 0) ⟨6, 2, 1000⟩ (some 6) 3 =
      .returned 2 [⟨0, 6, 0⟩, ⟨2, 6, 0⟩] := by
  decide +kernel

end MyCub.Acquisition
