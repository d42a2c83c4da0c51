import MyCub.Gaze
import Mathlib.Data.List.GetD

/-!
# Messages to the gaze controller

What `respond` and `updateModule` do with one message: the replies they give,
whether the module goes on, the speed they keep and the motion they start.  A
message asks for a motion when it names one of the three modes and carries a list
of enough values; whatever follows the optional speed is ignored.

What YARP's values are and how they are read is left open.  The replies can be told
apart; and where the camera mode fails, reading a value that is not there gives
zero.
-/

namespace MyCub.Gaze

/-- The reply to a motion differs from the other replies. -/
structure Yarp.Distinct (Y : Yarp) : Prop where
  nack : Y.nack ≠ Y.ack
  joints : ∀ joints, Y.jointsReply joints ≠ Y.ack

/-- A value that is missing is read as zero, which is not the default speed. -/
structure Yarp.ReadsZero (Y : Yarp) : Prop where
  missing : ∀ b i, Y.size b ≤ i → Y.asDouble (Y.get b i) = Y.literal 0
  speed : Y.literal 0 ≠ Y.literal JOINTS_SPEED

variable {Y : Yarp}

/-- A message that a client sends: `respond` answers the short ones itself. -/
def handleMessage (kin : Kinematics Y) (cmd : Y.Bottle) (joints : ℤ × ℤ) :
    Handling Y :=
  if Y.size cmd < 2 then .only Y.nack else updateModule kin cmd joints

/-! ## What a message asks for -/

inductive Mode where
  | joint
  | cam
  | cart
  deriving DecidableEq, Repr

def Mode.least : Mode → ℕ
  | .joint => 2
  | .cam => 3
  | .cart => 3

def modeOf (word : String) : Option Mode :=
  if word = "joint" then some .joint
  else if word = "cam" then some .cam
  else if word = "cart" then some .cart
  else none

/-- The mode and the values of a message that asks for a motion. -/
def motionRequest (cmd : Y.Bottle) : Option (Mode × Y.Bottle) :=
  if 2 ≤ Y.size cmd then
    match modeOf (Y.asString (Y.get cmd 0)), Y.asList (Y.get cmd 1) with
    | some m, some pos => if m.least ≤ Y.size pos then some (m, pos) else none
    | _, _ => none
  else none

/-- The speed that follows the values of a mode, if there is one. -/
def Mode.speed (m : Mode) (pos : Y.Bottle) : Y.Double :=
  if m.least < Y.size pos then Y.asDouble (Y.get pos m.least)
  else Y.literal JOINTS_SPEED

/-- A message is handled as a client expects. -/
structure Handling.Right (cmd : Y.Bottle) (h : Handling Y) : Prop where
  one : h.replies.length = 1
  running : h.running = true
  acknowledged : h.replies = [Y.ack] ↔ (motionRequest cmd).isSome = true
  speed : ∀ m pos, motionRequest cmd = some (m, pos) →
    h.speed = some (m.speed pos)

theorem motionRequest_of_mode {cmd : Y.Bottle} (hlength : 2 ≤ Y.size cmd)
    {m : Mode} (hmode : modeOf (Y.asString (Y.get cmd 0)) = some m) :
    motionRequest cmd = (Y.asList (Y.get cmd 1)).bind fun pos =>
      if m.least ≤ Y.size pos then some (m, pos) else none := by
  unfold motionRequest
  rw [if_pos hlength, hmode]
  cases Y.asList (Y.get cmd 1) with
  | none => rfl
  | some pos => rfl

theorem motionRequest_spec {cmd pos : Y.Bottle} {m : Mode}
    (hrequest : motionRequest cmd = some (m, pos)) :
    2 ≤ Y.size cmd ∧ modeOf (Y.asString (Y.get cmd 0)) = some m ∧
      m.least ≤ Y.size pos := by
  unfold motionRequest at hrequest
  split at hrequest
  · rename_i hlength
    split at hrequest
    · rename_i hmode _
      split at hrequest
      · rename_i hleast
        cases hrequest
        exact ⟨hlength, hmode, hleast⟩
      · cases hrequest
    · cases hrequest
  · cases hrequest

theorem motionRequest_of_no_mode {cmd : Y.Bottle}
    (hmode : modeOf (Y.asString (Y.get cmd 0)) = none) :
    motionRequest cmd = none := by
  by_contra hsome
  obtain ⟨⟨m, pos⟩, hrequest⟩ := Option.ne_none_iff_exists'.mp hsome
  rw [(motionRequest_spec hrequest).2.1] at hmode
  cases hmode

theorem motionRequest_of_short {cmd : Y.Bottle} (hshort : Y.size cmd < 2) :
    motionRequest cmd = none :=
  if_neg (by omega)

theorem right_of_no_request {cmd reply : Y.Bottle}
    (hrequest : motionRequest cmd = none) (hreply : reply ≠ Y.ack) :
    (Handling.only reply).Right cmd := by
  constructor
  · rfl
  · rfl
  · rw [hrequest]
    refine iff_of_false (fun h => hreply ?_) Bool.false_ne_true
    exact List.head_eq_of_cons_eq h
  · intro m pos h
    rw [hrequest] at h
    cases h

/-- A motion mode handles its messages right exactly if it reads the right
speed. -/
theorem motionMode_right_iff (hdistinct : Y.Distinct) {cmd : Y.Bottle}
    (hlength : 2 ≤ Y.size cmd) {m : Mode}
    (hmode : modeOf (Y.asString (Y.get cmd 0)) = some m) {size index : ℕ}
    {target : Y.Bottle → ℤ × ℤ} :
    (motionMode m.least size index target cmd).Right cmd ↔
      ∀ pos, motionRequest cmd = some (m, pos) →
        (if size ≤ Y.size pos then Y.asDouble (Y.get pos index)
          else Y.literal JOINTS_SPEED) = m.speed pos := by
  have hrequest := motionRequest_of_mode hlength hmode
  unfold motionMode
  cases hlist : Y.asList (Y.get cmd 1) with
  | none =>
      rw [hlist] at hrequest
      refine iff_of_true (right_of_no_request hrequest hdistinct.nack) ?_
      intro pos h
      rw [hrequest] at h
      cases h
  | some pos =>
      rw [hlist] at hrequest
      dsimp only [Option.bind_some] at hrequest ⊢
      by_cases hshort : Y.size pos < m.least
      · rw [if_neg (by omega)] at hrequest
        rw [if_pos hshort]
        refine iff_of_true (right_of_no_request hrequest hdistinct.nack) ?_
        intro pos' h
        rw [hrequest] at h
        cases h
      · rw [if_pos (by omega)] at hrequest
        rw [if_neg hshort]
        constructor
        · intro hright pos' h
          rw [hrequest] at h
          cases h
          exact Option.some.inj (hright.speed m pos hrequest)
        · intro hspeed
          constructor
          · rfl
          · rfl
          · rw [hrequest]
            exact iff_of_true rfl rfl
          · intro m' pos' h
            rw [hrequest] at h
            cases h
            exact congrArg some (hspeed pos hrequest)

theorem jointMode_right (hdistinct : Y.Distinct) {cmd : Y.Bottle}
    (hlength : 2 ≤ Y.size cmd)
    (hmode : modeOf (Y.asString (Y.get cmd 0)) = some .joint) :
    (jointMode cmd).Right cmd := by
  apply (motionMode_right_iff hdistinct hlength hmode).mpr
  intro pos _
  rfl

theorem cartMode_right (hdistinct : Y.Distinct) {kin : Kinematics Y}
    {cmd : Y.Bottle} (hlength : 2 ≤ Y.size cmd)
    (hmode : modeOf (Y.asString (Y.get cmd 0)) = some .cart) :
    (cartMode kin cmd).Right cmd := by
  apply (motionMode_right_iff hdistinct hlength hmode).mpr
  intro pos _
  rfl

theorem cam_speed_iff {pos : Y.Bottle} (hleast : 3 ≤ Y.size pos) :
    (if 3 ≤ Y.size pos then Y.asDouble (Y.get pos 3)
        else Y.literal JOINTS_SPEED) = Mode.cam.speed pos ↔
      ¬ (Y.size pos = 3 ∧
        Y.asDouble (Y.get pos 3) ≠ Y.literal JOINTS_SPEED) := by
  have hspeed : Mode.cam.speed pos =
      if 3 < Y.size pos then Y.asDouble (Y.get pos 3)
      else Y.literal JOINTS_SPEED := rfl
  rw [if_pos hleast, hspeed]
  by_cases hlength : Y.size pos = 3
  · rw [if_neg (by omega), and_iff_right hlength, not_not]
  · rw [if_pos (by omega)]
    exact iff_of_true rfl fun h => hlength h.1

/-- A message for the camera that leaves out the speed, where what is read in its
place is another one than the default. -/
def CamWithoutSpeed (cmd : Y.Bottle) : Prop :=
  ∃ pos, motionRequest cmd = some (.cam, pos) ∧ Y.size pos = 3 ∧
    Y.asDouble (Y.get pos 3) ≠ Y.literal JOINTS_SPEED

/-- The camera mode reads a fourth value that need not be there. -/
theorem camMode_right_iff (hdistinct : Y.Distinct) {kin : Kinematics Y}
    {joints : ℤ × ℤ} {cmd : Y.Bottle} (hlength : 2 ≤ Y.size cmd)
    (hmode : modeOf (Y.asString (Y.get cmd 0)) = some .cam) :
    (camMode kin joints cmd).Right cmd ↔ ¬ CamWithoutSpeed cmd := by
  have hright : (camMode kin joints cmd).Right cmd ↔ _ :=
    motionMode_right_iff hdistinct hlength hmode
  rw [hright, CamWithoutSpeed, not_exists]
  apply forall_congr'
  intro pos
  rw [not_and]
  apply imp_congr_right
  intro hrequest
  exact cam_speed_iff (motionRequest_spec hrequest).2.2

/-! ## One command -/

theorem modeOf_eq_cam_iff (word : String) :
    modeOf word = some .cam ↔ word = "cam" := by
  unfold modeOf
  split_ifs with hjoint hcam hcart
  · simp [hjoint]
  · simp [hcam]
  · simp [hcart]
  · simp [hcam]

theorem updateModule_right (hdistinct : Y.Distinct) (kin : Kinematics Y)
    {cmd : Y.Bottle} (hlength : 2 ≤ Y.size cmd)
    (hexit : Y.asString (Y.get cmd 0) ≠ "cmd_exit")
    (hcam : Y.asString (Y.get cmd 0) ≠ "cam") (joints : ℤ × ℤ) :
    (updateModule kin cmd joints).Right cmd := by
  unfold updateModule
  dsimp only
  rw [if_neg hexit]
  by_cases hget : Y.asString (Y.get cmd 0) = "get"
  · have hrequest : motionRequest cmd = none :=
      motionRequest_of_no_mode (by simp [modeOf, hget])
    rw [if_pos hget, if_neg (by omega)]
    split
    · exact right_of_no_request hrequest (hdistinct.joints joints)
    · exact right_of_no_request hrequest hdistinct.nack
  rw [if_neg hget]
  by_cases hjoint : Y.asString (Y.get cmd 0) = "joint"
  · rw [if_pos hjoint]
    exact jointMode_right hdistinct hlength (by simp [modeOf, hjoint])
  rw [if_neg hjoint, if_neg hcam]
  by_cases hcart : Y.asString (Y.get cmd 0) = "cart"
  · rw [if_pos hcart]
    exact cartMode_right hdistinct hlength (by simp [modeOf, hcart])
  · rw [if_neg hcart]
    have hrequest : motionRequest cmd = none :=
      motionRequest_of_no_mode (by simp [modeOf, hjoint, hcam, hcart])
    exact right_of_no_request hrequest hdistinct.nack

theorem updateModule_exit (kin : Kinematics Y) {cmd : Y.Bottle}
    (hexit : Y.asString (Y.get cmd 0) = "cmd_exit") (joints : ℤ × ℤ) :
    (updateModule kin cmd joints).running = false := by
  unfold updateModule
  dsimp only
  rw [if_pos hexit]

theorem updateModule_cam (kin : Kinematics Y) {cmd : Y.Bottle}
    (hcam : Y.asString (Y.get cmd 0) = "cam") (joints : ℤ × ℤ) :
    updateModule kin cmd joints = camMode kin joints cmd := by
  unfold updateModule
  simp [hcam]

theorem CamWithoutSpeed.spec {cmd : Y.Bottle} (h : CamWithoutSpeed cmd) :
    2 ≤ Y.size cmd ∧ Y.asString (Y.get cmd 0) = "cam" := by
  obtain ⟨pos, hrequest, -⟩ := h
  obtain ⟨hlength, hmode, -⟩ := motionRequest_spec hrequest
  exact ⟨hlength, (modeOf_eq_cam_iff _).mp hmode⟩

/-! ## Every message -/

/-- The word with which the module ends itself. -/
def Exits (cmd : Y.Bottle) : Prop :=
  2 ≤ Y.size cmd ∧ Y.asString (Y.get cmd 0) = "cmd_exit"

/-- Every message gets one reply, which is `[ack]` exactly for a motion, leaves the
module running and sets the speed, unless a client sends the word with which the
module ends itself or a point for the camera without a speed. -/
theorem gaze_message_right_iff (hdistinct : Y.Distinct) (kin : Kinematics Y)
    (cmd : Y.Bottle) (joints : ℤ × ℤ) :
    (handleMessage kin cmd joints).Right cmd ↔
      ¬ Exits cmd ∧ ¬ CamWithoutSpeed cmd := by
  unfold handleMessage
  by_cases hshort : Y.size cmd < 2
  · rw [if_pos hshort]
    have hrequest := motionRequest_of_short hshort
    refine iff_of_true (right_of_no_request hrequest hdistinct.nack) ⟨?_, ?_⟩
    · intro hexits
      exact absurd hexits.1 (by omega)
    · intro hcam
      exact absurd hcam.spec.1 (by omega)
  have hlength : 2 ≤ Y.size cmd := not_lt.mp hshort
  rw [if_neg hshort]
  by_cases hexit : Y.asString (Y.get cmd 0) = "cmd_exit"
  · refine iff_of_false ?_ fun h => h.1 ⟨hlength, hexit⟩
    intro hright
    have hrunning := hright.running
    rw [updateModule_exit kin hexit] at hrunning
    cases hrunning
  have hruns : ¬ Exits cmd := fun hexits => hexit hexits.2
  by_cases hcam : Y.asString (Y.get cmd 0) = "cam"
  · rw [updateModule_cam kin hcam, camMode_right_iff hdistinct hlength
      ((modeOf_eq_cam_iff _).mpr hcam)]
    exact (and_iff_right hruns).symm
  · refine iff_of_true (updateModule_right hdistinct kin hlength hexit hcam _) ?_
    exact ⟨hruns, fun h => hcam h.spec.2⟩

theorem plain_distinct : plain.Distinct where
  nack := by
    intro h
    have hhead := List.head_eq_of_cons_eq h
    injection hhead with htext
    exact absurd htext (by decide)
  joints := by
    intro joints h
    cases List.head_eq_of_cons_eq h

theorem gaze_message_right_joint :
    ∃ (kin : Kinematics plain) (cmd pos : plain.Bottle),
      motionRequest cmd = some (.joint, pos) ∧
      (handleMessage kin cmd (100, 105)).Right cmd := by
  let values : List PlainValue := [.int 20, .int 30]
  let cmd : plain.Bottle := [PlainValue.string "joint", .list values]
  let kin : Kinematics plain := ⟨fun _ joints => joints, fun _ => (100, 105)⟩
  refine ⟨kin, cmd, values, rfl,
    (gaze_message_right_iff plain_distinct kin cmd (100, 105)).mpr ⟨?_, ?_⟩⟩
  · intro hexits
    exact absurd hexits.2 (by decide)
  · intro hcam
    exact absurd hcam.spec.2 (by decide)

/-- A point for the camera is acknowledged, and moves at the speed of a value that is
not there. -/
theorem handleMessage_cam_without_speed (hreads : Y.ReadsZero)
    (kin : Kinematics Y) (joints : ℤ × ℤ) {cmd pos : Y.Bottle}
    (hrequest : motionRequest cmd = some (.cam, pos))
    (hlength : Y.size pos = 3) :
    handleMessage kin cmd joints =
      ⟨[Y.ack], true, some (Y.literal 0), some (kin.cam pos joints)⟩ := by
  obtain ⟨hsize, hmode, -⟩ := motionRequest_spec hrequest
  have hword := (modeOf_eq_cam_iff _).mp hmode
  have hread := hreads.missing pos 3 hlength.le
  have hlist : Y.asList (Y.get cmd 1) = some pos := by
    rw [motionRequest_of_mode hsize hmode] at hrequest
    obtain ⟨pos', hpos', hsome⟩ := Option.bind_eq_some_iff.mp hrequest
    split at hsome
    · cases hsome
      exact hpos'
    · cases hsome
  rw [handleMessage, if_neg (by omega), updateModule_cam kin hword, camMode,
    motionMode, hlist]
  dsimp only
  rw [if_neg (by omega), if_pos (by omega), hread]

theorem plain_readsZero : plain.ReadsZero where
  missing := by
    intro b i hi
    exact congrArg PlainValue.asDouble
      (List.getD_eq_default b PlainValue.null hi)
  speed := by
    change (0 : ℚ) ≠ JOINTS_SPEED
    norm_num [JOINTS_SPEED]

/-- Wherever a missing value is read as zero, a point for the camera without a speed
is acknowledged and moves at the speed zero; and whatever the values are, the word
`cmd_exit` ends the module.  Both messages can be sent. -/
theorem gaze_messages_mishandled :
    (∀ (Y : Yarp) (kin : Kinematics Y) (joints : ℤ × ℤ) (cmd pos : Y.Bottle),
      Y.ReadsZero → motionRequest cmd = some (.cam, pos) → Y.size pos = 3 →
        (handleMessage kin cmd joints).replies = [Y.ack] ∧
        (handleMessage kin cmd joints).speed = some (Y.literal 0) ∧
        Mode.cam.speed pos = Y.literal JOINTS_SPEED ∧
        Y.literal 0 ≠ Y.literal JOINTS_SPEED) ∧
    (∀ (Y : Yarp) (kin : Kinematics Y) (joints : ℤ × ℤ) (cmd : Y.Bottle),
      2 ≤ Y.size cmd → Y.asString (Y.get cmd 0) = "cmd_exit" →
        (handleMessage kin cmd joints).running = false) ∧
    ∃ (Y : Yarp) (point pos exit : Y.Bottle), Y.ReadsZero ∧ Y.Distinct ∧
      motionRequest point = some (.cam, pos) ∧ Y.size pos = 3 ∧
      2 ≤ Y.size exit ∧ Y.asString (Y.get exit 0) = "cmd_exit" := by
  refine ⟨?_, ?_, ?_⟩
  · intro Y kin joints cmd pos hreads hrequest hlength
    rw [handleMessage_cam_without_speed hreads kin joints hrequest hlength]
    exact ⟨rfl, rfl, if_neg (by rw [hlength]; decide), hreads.speed⟩
  · intro Y kin joints cmd hsize hexit
    rw [handleMessage, if_neg (by omega)]
    exact updateModule_exit kin hexit joints
  · let values : List PlainValue := [.int 160, .int 120, .int 1]
    refine ⟨plain, [PlainValue.string "cam", .list values], values,
      [PlainValue.string "cmd_exit", .int 0], plain_readsZero, plain_distinct,
      rfl, rfl, ?_, rfl⟩
    exact le_refl 2

end MyCub.Gaze
