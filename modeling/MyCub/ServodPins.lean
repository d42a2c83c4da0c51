import Mathlib.Data.List.Duplicate
import Mathlib.Data.List.GetD
import Mathlib.Data.List.ReduceOption
import MyCub.ServodCommands
import MyCub.ServodWidths

/-!
# The pins of the servo daemon

`parse_pin_lists` reads the lists of header pins and numbers the servos in the order
of the pins; a zero in a list leaves a number out.  `main` notes the modes of the
outputs before it takes them over, and `terminate` puts them back.

Both work as intended if and only if no output is given to two servos.  With
`--p5pins` before or without `--p1pins` this is so only for a list without pins, since
the list of the header P5 is then taken twice and that of P1 not at all.
-/

namespace MyCub.Servod

open CFormat

/-! ## Headers -/

inductive Header
  | p1
  | p5
  deriving DecidableEq, Repr

def Header.name : Header → String
  | .p1 => "P1"
  | .p5 => "P5"

/-- A pin that is not wired to an output. -/
def DMY : ℕ := 255

def rev1P1pin2gpioMap : List ℕ :=
  [DMY, DMY, 0, DMY, 1, DMY, 4, 14, DMY, 15, 17, 18, 21, DMY, 22, 23, DMY, 24, 10,
    DMY, 9, 25, 11, 8, DMY, 7]

def rev1P5pin2gpioMap : List ℕ :=
  List.replicate 8 DMY

def rev2P1pin2gpioMap : List ℕ :=
  [DMY, DMY, 2, DMY, 3, DMY, 4, 14, DMY, 15, 17, 18, 27, DMY, 22, 23, DMY, 24, 10,
    DMY, 9, 25, 11, 8, DMY, 7]

def rev2P5pin2gpioMap : List ℕ :=
  [DMY, DMY, 28, 29, 30, 31, DMY, DMY]

def wiredTo (entry : ℕ) : Option Gpio :=
  if h : entry < 32 then some ⟨entry, h⟩ else none

inductive BoardRev
  | rev1
  | rev2
  deriving DecidableEq, Repr

def BoardRev.map : BoardRev → Header → List (Option Gpio)
  | .rev1, .p1 => rev1P1pin2gpioMap.map wiredTo
  | .rev1, .p5 => rev1P5pin2gpioMap.map wiredTo
  | .rev2, .p1 => rev2P1pin2gpioMap.map wiredTo
  | .rev2, .p5 => rev2P5pin2gpioMap.map wiredTo

/-- The output of a pin, counted from one. -/
def BoardRev.gpio (rev : BoardRev) (header : Header) (pin : ℕ) : Option Gpio :=
  (rev.map header).getD (pin - 1) none

/-! ## The tables -/

/-- The tables while the lists are read.  The servos from `servo` on have not been
given a pin. -/
structure Mapping where
  servo2gpio : List (Option Gpio)
  p1pin2servo : List (Option ℕ)
  p5pin2servo : List (Option ℕ)
  servo : ℕ
  size : servo2gpio.length = MAX_SERVOS
  bounded : servo ≤ MAX_SERVOS
  fresh : ∀ servo', servo ≤ servo' → servo2gpio.getD servo' none = none
  p1mapped : ∀ servo', some servo' ∈ p1pin2servo →
    (servo2gpio.getD servo' none).isSome
  p5mapped : ∀ servo', some servo' ∈ p5pin2servo →
    (servo2gpio.getD servo' none).isSome

namespace Mapping

def empty : Mapping where
  servo2gpio := List.replicate MAX_SERVOS none
  p1pin2servo := List.replicate 27 none
  p5pin2servo := List.replicate 9 none
  servo := 0
  size := List.length_replicate
  bounded := Nat.zero_le _
  fresh := fun servo' _ => by
    rw [List.getD_eq_getElem?_getD, List.getElem?_replicate]
    split <;> rfl
  p1mapped := fun servo' h => by cases List.eq_of_mem_replicate h
  p5mapped := fun servo' h => by cases List.eq_of_mem_replicate h

def skip (m : Mapping) (h : m.servo ≠ MAX_SERVOS) : Mapping :=
  { m with
    servo := m.servo + 1
    bounded := lt_of_le_of_ne m.bounded h
    fresh := fun servo' h => m.fresh servo' (by omega) }

theorem getD_set {servos : List (Option Gpio)} {servo servo' : ℕ} {p : Gpio}
    (h : servo < servos.length) :
    (servos.set servo (some p)).getD servo' none =
      if servo' = servo then some p else servos.getD servo' none := by
  rw [List.getD_eq_getElem?_getD, List.getElem?_set, List.getD_eq_getElem?_getD]
  by_cases heq : servo = servo'
  · subst heq
    rw [if_pos rfl, if_pos h, if_pos rfl]
    rfl
  · rw [if_neg heq, if_neg (Ne.symm heq)]

theorem servo_lt_length (m : Mapping) (h : m.servo ≠ MAX_SERVOS) :
    m.servo < m.servo2gpio.length :=
  m.size ▸ lt_of_le_of_ne m.bounded h

theorem isSome_set {servos : List (Option Gpio)} {servo servo' : ℕ} {p : Gpio}
    (h : servo < servos.length)
    (hservo : servo' = servo ∨ (servos.getD servo' none).isSome) :
    ((servos.set servo (some p)).getD servo' none).isSome := by
  rw [getD_set h]
  split
  · rfl
  · exact hservo.resolve_left (by assumption)

theorem mem_set {pins : List (Option ℕ)} {pin servo servo' : ℕ} {P : ℕ → Prop}
    (hmem : some servo' ∈ pins.set pin (some servo))
    (hpins : ∀ servo', some servo' ∈ pins → P servo') : servo' = servo ∨ P servo' := by
  rcases List.mem_or_eq_of_mem_set hmem with hold | hnew
  · exact Or.inr (hpins servo' hold)
  · exact Or.inl (Option.some.inj hnew)

/-- The servo number and the output of a pin are entered. -/
def add (m : Mapping) (header : Header) (pin : ℕ) (p : Gpio)
    (h : m.servo ≠ MAX_SERVOS) : Mapping where
  servo2gpio := m.servo2gpio.set m.servo (some p)
  p1pin2servo :=
    if header = .p1 then m.p1pin2servo.set pin (some m.servo) else m.p1pin2servo
  p5pin2servo :=
    if header = .p5 then m.p5pin2servo.set pin (some m.servo) else m.p5pin2servo
  servo := m.servo + 1
  size := by rw [List.length_set, m.size]
  bounded := lt_of_le_of_ne m.bounded h
  fresh := fun servo' hle => by
    rw [getD_set (m.servo_lt_length h), if_neg (by omega)]
    exact m.fresh servo' (by omega)
  p1mapped := fun servo' hmem => by
    apply isSome_set (m.servo_lt_length h)
    split at hmem
    · exact mem_set hmem m.p1mapped
    · exact Or.inr (m.p1mapped servo' hmem)
  p5mapped := fun servo' hmem => by
    apply isSome_set (m.servo_lt_length h)
    split at hmem
    · exact mem_set hmem m.p5mapped
    · exact Or.inr (m.p5mapped servo' hmem)

/-- The outputs in the order of their servos. -/
def outputs (m : Mapping) : List Gpio :=
  m.servo2gpio.reduceOption

end Mapping

/-! ## Reading the lists -/

def skipComma : List Char → List Char
  | ',' :: rest => rest
  | rest => rest

theorem length_skipComma_le (text : List Char) :
    (skipComma text).length ≤ text.length := by
  unfold skipComma
  split
  · exact Nat.le_succ _
  · exact le_rfl

/-- A number that is followed by neither a comma nor the end of the list, or no
number at all. -/
def Malformed (pins rest : List Char) : Prop :=
  rest ≠ [] ∧ (rest = pins ∨ rest.head? ≠ some ',')

instance (pins rest : List Char) : Decidable (Malformed pins rest) :=
  inferInstanceAs (Decidable (_ ∧ _))

theorem length_rest_lt {c : Char} {text : List Char}
    (h : ¬ Malformed (c :: text) (strtol (c :: text)).2) :
    (skipComma (strtol (c :: text)).2).length < (c :: text).length := by
  have hcomma := length_skipComma_le (strtol (c :: text)).2
  by_cases hsame : (strtol (c :: text)).2 = c :: text
  · rw [hsame] at h
    exact absurd ⟨List.cons_ne_nil _ _, Or.inl rfl⟩ h
  · have hless := length_strtol_lt hsame
    omega

/-- The loop over a list of pins. -/
def pinLoop (rev : BoardRev) (header : Header) (pins : List Char) (m : Mapping) :
    Except String Mapping :=
  match pins with
  | [] => .ok m
  | c :: text =>
      if _hbad : Malformed (c :: text) (strtol (c :: text)).2 then
        .error ("Invalid character '" ++
          String.ofList ((strtol (c :: text)).2.take 1) ++
          "' in " ++ header.name ++ " pin list\n")
      else if (strtol (c :: text)).1 < 0 ∨
          ((rev.map header).length : ℤ) < (strtol (c :: text)).1 then
        .error ("Invalid pin number " ++ toString (strtol (c :: text)).1 ++
          " in " ++ header.name ++ " pin list\n")
      else if hfull : m.servo = MAX_SERVOS then
        .error "Too many servos specified\n"
      else if (strtol (c :: text)).1 = 0 then
        pinLoop rev header (skipComma (strtol (c :: text)).2) (m.skip hfull)
      else
        match rev.gpio header (strtol (c :: text)).1.toNat with
        | none =>
            .error ("Pin " ++ toString (strtol (c :: text)).1 ++ " on header " ++
              header.name ++ " cannot be used for a servo output\n")
        | some p =>
            pinLoop rev header (skipComma (strtol (c :: text)).2)
              (m.add header (strtol (c :: text)).1.toNat p hfull)
termination_by pins.length
decreasing_by
  · exact length_rest_lt _hbad
  · exact length_rest_lt _hbad

theorem pinLoop_nil (rev : BoardRev) (header : Header) (m : Mapping) :
    pinLoop rev header [] m = .ok m := by
  rw [pinLoop.eq_def]

/-- A number that leads to an output is entered. -/
theorem pinLoop_pin {rev : BoardRev} {header : Header} {c : Char}
    {text : List Char} {m : Mapping} (pin : ℕ) (rest : List Char) (p : Gpio)
    (hnumber : strtol (c :: text) = ((pin : ℤ), rest))
    (hgood : ¬ Malformed (c :: text) rest) (hrange : pin ≤ (rev.map header).length)
    (hfull : m.servo ≠ MAX_SERVOS) (hpos : 0 < pin)
    (hp : rev.gpio header pin = some p) :
    pinLoop rev header (c :: text) m =
      pinLoop rev header (skipComma rest) (m.add header pin p hfull) := by
  rw [pinLoop.eq_def]
  simp only [hnumber, Int.toNat_natCast]
  rw [dif_neg hgood, if_neg (by omega), dif_neg hfull, if_neg (by omega), hp]

/-- The second pass takes the list of the header P5 in any case, and so does the first
one unless the list of P1 was given first. -/
def pinPass (rev : BoardRev) (p1first : Bool) (p1pins p5pins : List Char) (lst : ℕ)
    (m : Mapping) : Except String Mapping :=
  if lst = 0 ∧ p1first then pinLoop rev .p1 p1pins m else pinLoop rev .p5 p5pins m

def parsePinLists (rev : BoardRev) (p1first : Bool) (p1pins p5pins : List Char) :
    Except String Mapping := do
  let m ← pinPass rev p1first p1pins p5pins 0 .empty
  pinPass rev p1first p1pins p5pins 1 m

theorem bind_eq_ok {α β : Type} {x : Except String α} {f : α → Except String β} {b : β} :
    (x >>= f) = .ok b ↔ ∃ a, x = .ok a ∧ f a = .ok b := by
  cases x with
  | error message => simp [bind, Except.bind]
  | ok a => simp [bind, Except.bind]

/-- The numbers of a list. -/
def pinNumbers (pins : List Char) : List ℤ :=
  match pins with
  | [] => []
  | c :: text =>
      if _hbad : Malformed (c :: text) (strtol (c :: text)).2 then []
      else (strtol (c :: text)).1 :: pinNumbers (skipComma (strtol (c :: text)).2)
termination_by pins.length
decreasing_by exact length_rest_lt _hbad

/-- The pins of a list. -/
def pinsOf (pins : List Char) : List ℕ :=
  ((pinNumbers pins).filter fun pin => pin != 0).map Int.toNat

/-! ## Outputs of the lists -/

theorem reduceOption_set {servos : List (Option Gpio)} {servo : ℕ} {p : Gpio}
    (hservo : servo < servos.length)
    (hfresh : ∀ servo', servo ≤ servo' → servos.getD servo' none = none) :
    (servos.set servo (some p)).reduceOption = servos.reduceOption ++ [p] := by
  induction servos generalizing servo with
  | nil => exact absurd hservo (Nat.not_lt_zero _)
  | cons q rest ih =>
      cases servo with
      | zero =>
          have hq : q = none := hfresh 0 le_rfl
          have hrest : rest.reduceOption = [] := by
            rw [List.reduceOption, List.filterMap_eq_nil_iff]
            intro q' hq'
            obtain ⟨i, hi, rfl⟩ := List.getElem_of_mem hq'
            have hnone := hfresh (i + 1) (Nat.zero_le _)
            rwa [List.getD_cons_succ, List.getD_eq_getElem?_getD,
              List.getElem?_eq_getElem hi] at hnone
          simp [hq, hrest]
      | succ servo =>
          have hrest := ih (Nat.lt_of_succ_lt_succ hservo)
            fun servo' hle => hfresh (servo' + 1) (by omega)
          cases q with
          | none => simpa using hrest
          | some q => simpa using hrest

theorem Mapping.outputs_add (m : Mapping) (header : Header) (pin : ℕ) (p : Gpio)
    (h : m.servo ≠ MAX_SERVOS) :
    (m.add header pin p h).outputs = m.outputs ++ [p] :=
  reduceOption_set (m.servo_lt_length h) m.fresh

theorem pinNumbers_nil : pinNumbers [] = [] := by
  rw [pinNumbers.eq_def]

theorem pinNumbers_cons {c : Char} {text : List Char}
    (hgood : ¬ Malformed (c :: text) (strtol (c :: text)).2) :
    pinNumbers (c :: text) =
      (strtol (c :: text)).1 :: pinNumbers (skipComma (strtol (c :: text)).2) := by
  rw [pinNumbers.eq_def]
  exact dif_neg hgood

/-- An accepted list adds the outputs of its pins. -/
theorem pinLoop_outputs {rev : BoardRev} {header : Header} {pins : List Char}
    {m m' : Mapping} (h : pinLoop rev header pins m = .ok m') :
    (∀ pin ∈ pinsOf pins, 0 < pin ∧ (rev.gpio header pin).isSome) ∧
      m'.outputs = m.outputs ++ (pinsOf pins).filterMap (rev.gpio header) := by
  fun_induction pinLoop rev header pins m with
  | case1 m =>
      cases h
      simp [pinsOf, pinNumbers_nil]
  | case2 m c text hbad => cases h
  | case3 m c text hgood hrange => cases h
  | case4 m c text hgood hrange hfull => cases h
  | case5 m c text hgood hrange hfull hzero ih =>
      obtain ⟨hpins, houtputs⟩ := ih h
      have hskip : pinsOf (c :: text) =
          pinsOf (skipComma (strtol (c :: text)).2) := by
        simp [pinsOf, pinNumbers_cons hgood, hzero]
      rw [hskip]
      exact ⟨hpins, houtputs⟩
  | case6 m c text hgood hrange hfull hzero hnone => cases h
  | case7 m c text hgood hrange hfull hzero p hp ih =>
      obtain ⟨hpins, houtputs⟩ := ih h
      have hpin : pinsOf (c :: text) = (strtol (c :: text)).1.toNat ::
          pinsOf (skipComma (strtol (c :: text)).2) := by
        simp [pinsOf, pinNumbers_cons hgood, hzero]
      rw [hpin, houtputs, Mapping.outputs_add]
      refine ⟨?_, ?_⟩
      · intro pin hmem
        rcases List.mem_cons.mp hmem with rfl | hrest
        · exact ⟨by omega, by rw [hp]; rfl⟩
        · exact hpins pin hrest
      · simp [hp]

/-! ## Distinct outputs -/

theorem nodup_reduceOption_iff {entries : List (Option Gpio)} :
    entries.reduceOption.Nodup ↔
      ∀ s t p, entries.getD s none = some p → entries.getD t none = some p → s = t := by
  induction entries with
  | nil => simp
  | cons q rest ih =>
      cases q with
      | none =>
          rw [List.reduceOption_cons_of_none, ih]
          refine ⟨?_, fun h s t p hs ht => by simpa using h (s + 1) (t + 1) p hs ht⟩
          intro h s t p hs ht
          match s, t with
          | 0, _ => cases hs
          | _ + 1, 0 => cases ht
          | s + 1, t + 1 => exact congrArg (· + 1) (h s t p hs ht)
      | some q =>
          rw [List.reduceOption_cons_of_some, List.nodup_cons, ih,
            List.reduceOption_mem_iff]
          constructor
          · rintro ⟨hnew, h⟩ s t p hs ht
            match s, t with
            | 0, 0 => rfl
            | 0, t + 1 =>
                cases hs
                exact absurd (mem_of_getD rest ht) hnew
            | s + 1, 0 =>
                cases ht
                exact absurd (mem_of_getD rest hs) hnew
            | s + 1, t + 1 => exact congrArg (· + 1) (h s t p hs ht)
          · intro h
            refine ⟨fun hmem => ?_,
              fun s t p hs ht => by simpa using h (s + 1) (t + 1) p hs ht⟩
            obtain ⟨t, ht⟩ := List.getElem?_of_mem hmem
            cases h 0 (t + 1) q rfl
              (by rw [List.getD_cons_succ, List.getD_eq_getElem?_getD, ht]; rfl)

namespace BoardRev

/-- The pins of both headers, those of P1 first. -/
def wiring (rev : BoardRev) : List (Option Gpio) :=
  rev.map .p1 ++ rev.map .p5

theorem nodup_wiring (rev : BoardRev) : rev.wiring.reduceOption.Nodup := by
  cases rev <;> decide

def place : Header → ℕ → ℕ
  | .p1, pin => pin - 1
  | .p5, pin => 26 + (pin - 1)

variable {rev : BoardRev} {header header' : Header} {pin pin' : ℕ} {p : Gpio}

theorem length_map_p1 (rev : BoardRev) : (rev.map .p1).length = 26 := by
  cases rev <;> rfl

theorem lt_of_gpio (h : rev.gpio header pin = some p) :
    pin - 1 < (rev.map header).length := by
  by_contra hle
  rw [gpio, List.getD_eq_getElem?_getD,
    List.getElem?_eq_none (Nat.not_lt.mp hle)] at h
  cases h

theorem wiring_place (h : rev.gpio header pin = some p) :
    rev.wiring.getD (place header pin) none = some p := by
  cases header with
  | p1 => rw [wiring, place, List.getD_append _ _ _ _ (lt_of_gpio h), ← h, gpio]
  | p5 =>
      rw [wiring, place, List.getD_append_right _ _ _ _
        (by rw [length_map_p1]; exact Nat.le_add_right _ _), length_map_p1,
        Nat.add_sub_cancel_left, ← h, gpio]

/-- Different pins lead to different outputs. -/
theorem gpio_inj (h : rev.gpio header pin = some p)
    (h' : rev.gpio header' pin' = some p) (hpin : 0 < pin) (hpin' : 0 < pin') :
    header = header' ∧ pin = pin' := by
  have hplace := nodup_reduceOption_iff.mp rev.nodup_wiring _ _ p (wiring_place h)
    (wiring_place h')
  have hlt := lt_of_gpio h
  have hlt' := lt_of_gpio h'
  have hlength := rev.length_map_p1
  cases header <;> cases header' <;> simp only [place] at hplace
  · exact ⟨rfl, by omega⟩
  · omega
  · omega
  · exact ⟨rfl, by omega⟩

theorem nodup_gpios {pins : List ℕ}
    (hpins : ∀ pin ∈ pins, 0 < pin ∧ (rev.gpio header pin).isSome) :
    (pins.filterMap (rev.gpio header)).Nodup ↔ pins.Nodup := by
  induction pins with
  | nil => simp
  | cons pin rest ih =>
      obtain ⟨hpos, hsome⟩ := hpins pin List.mem_cons_self
      obtain ⟨p, hp⟩ := Option.isSome_iff_exists.mp hsome
      have hrest := fun pin' h => hpins pin' (List.mem_cons_of_mem pin h)
      rw [List.filterMap_cons_some hp, List.nodup_cons, List.nodup_cons, ih hrest]
      refine and_congr_left' (not_congr ?_)
      rw [List.mem_filterMap]
      constructor
      · rintro ⟨pin', hmem, hp'⟩
        obtain ⟨-, rfl⟩ := gpio_inj hp' hp (hrest pin' hmem).1 hpos
        exact hmem
      · exact fun hmem => ⟨pin, hmem, hp⟩

end BoardRev

/-- Different servos get different outputs if and only if the list of P1 comes first
and no list names a pin twice, or that of P5 comes first and does not name any pin. -/
theorem pins_distinct_iff {rev : BoardRev} {p1first : Bool} {p1pins p5pins : List Char}
    {m : Mapping} (h : parsePinLists rev p1first p1pins p5pins = .ok m) {c : Setup}
    (hc : c.servo2gpio = m.servo2gpio) :
    c.Distinct ↔
      if p1first then (pinsOf p1pins).Nodup ∧ (pinsOf p5pins).Nodup
      else pinsOf p5pins = [] := by
  have hdistinct : c.Distinct ↔ m.outputs.Nodup := by
    rw [Mapping.outputs, ← hc]
    exact nodup_reduceOption_iff.symm
  rw [hdistinct]
  obtain ⟨m₁, hfirst, hsecond⟩ := bind_eq_ok.mp h
  rw [pinPass, if_neg (by simp)] at hsecond
  have hempty : Mapping.empty.outputs = [] := List.reduceOption_replicate_none
  obtain ⟨hp5, hall⟩ := pinLoop_outputs hsecond
  cases p1first with
  | true =>
      obtain ⟨hp1, hone⟩ := pinLoop_outputs hfirst
      rw [hall, hone, hempty, List.nil_append, List.nodup_append,
        BoardRev.nodup_gpios hp1, BoardRev.nodup_gpios hp5, if_pos rfl]
      refine and_congr_right fun _ => and_iff_left ?_
      intro p hleft q hright heq
      obtain ⟨pin, hpin, hgpio⟩ := List.mem_filterMap.mp hleft
      obtain ⟨pin', hpin', hgpio'⟩ := List.mem_filterMap.mp hright
      cases (BoardRev.gpio_inj hgpio (heq ▸ hgpio') (hp1 pin hpin).1
        (hp5 pin' hpin').1).1
  | false =>
      obtain ⟨-, hone⟩ := pinLoop_outputs hfirst
      rw [hall, hone, hempty, List.nil_append, if_neg Bool.false_ne_true]
      constructor
      · intro hnodup
        rw [List.eq_nil_iff_forall_not_mem]
        intro pin hmem
        obtain ⟨p, hp⟩ := Option.isSome_iff_exists.mp (hp5 pin hmem).2
        have houtput := List.mem_filterMap.mpr ⟨pin, hmem, hp⟩
        exact (List.nodup_append.mp hnodup).2.2 p houtput p houtput rfl
      · intro hnone
        rw [hnone]
        exact List.nodup_nil

theorem pins_distinct_deployed :
    ∃ m, parsePinLists .rev2 true "18,22".toList [] = .ok m ∧
      Setup.deployed.servo2gpio = m.servo2gpio ∧
      (Setup.deployed.Distinct ↔
        (pinsOf "18,22".toList).Nodup ∧ (pinsOf []).Nodup) := by
  have hsecond : (Mapping.empty.add .p1 18 24 (by decide)).servo ≠ MAX_SERVOS := by
    decide
  have hloop : pinLoop .rev2 .p1 "18,22".toList .empty =
      .ok ((Mapping.empty.add .p1 18 24 (by decide)).add .p1 22 25 hsecond) := by
    rw [show "18,22".toList = '1' :: "8,22".toList from rfl,
      pinLoop_pin 18 ",22".toList 24 (by decide) (by decide)
        (by decide) (by decide) (by decide) rfl,
      show skipComma ",22".toList = '2' :: "2".toList from rfl,
      pinLoop_pin 22 [] 25 (by decide) (by decide)
        (by decide) hsecond (by decide) rfl]
    exact pinLoop_nil _ _ _
  have hparse : parsePinLists .rev2 true "18,22".toList [] =
      .ok ((Mapping.empty.add .p1 18 24 (by decide)).add .p1 22 25 hsecond) := by
    rw [parsePinLists, pinPass, if_pos ⟨rfl, rfl⟩, hloop]
    exact pinLoop_nil _ _ _
  exact ⟨_, hparse, rfl, pins_distinct_iff hparse rfl⟩

/-! ## Modes of the outputs -/

def GPIO_MODE_OUT : Word := 1#32

/-- Bits of the mode of an output begin here. -/
def modeShift (gpio : Gpio) : ℕ :=
  gpio.val % 10 * 3

/-- The registers that select the functions of the outputs, counted from
`GPIO_FSEL0`. -/
def gpioGetMode (fsel : ℕ → Word) (gpio : Gpio) : Word :=
  (fsel (gpio.val / 10) >>> modeShift gpio) &&& 7#32

def gpioSetMode (fsel : ℕ → Word) (gpio : Gpio) (mode : Word) : ℕ → Word :=
  Function.update fsel (gpio.val / 10)
    ((fsel (gpio.val / 10) &&& ~~~(7#32 <<< modeShift gpio)) |||
      mode <<< modeShift gpio)

/-- The loop of `main`, which returns the registers and `gpiomode`. -/
def takeOver (fsel : ℕ → Word) : List (Option Gpio) → (ℕ → Word) × List Word
  | [] => (fsel, [])
  | none :: rest =>
      ((takeOver fsel rest).1, 0#32 :: (takeOver fsel rest).2)
  | some gpio :: rest =>
      ((takeOver (gpioSetMode fsel gpio GPIO_MODE_OUT) rest).1,
        gpioGetMode fsel gpio ::
          (takeOver (gpioSetMode fsel gpio GPIO_MODE_OUT) rest).2)

/-- The loop of `terminate`. -/
def giveBack (fsel : ℕ → Word) : List (Option Gpio) → List Word → ℕ → Word
  | none :: rest, _ :: modes => giveBack fsel rest modes
  | some gpio :: rest, mode :: modes =>
      giveBack (gpioSetMode fsel gpio mode) rest modes
  | _, _ => fsel

theorem getLsbD_seven (i : ℕ) : (7#32).getLsbD i = decide (i < 3) := by
  rcases Nat.lt_or_ge i 32 with hlt | hge
  · revert i
    decide
  · rw [BitVec.getLsbD_of_ge _ _ hge]
    exact (decide_eq_false (by omega)).symm

theorem getLsbD_gpioGetMode (fsel : ℕ → Word) (gpio : Gpio) (i : ℕ) :
    (gpioGetMode fsel gpio).getLsbD i =
      ((fsel (gpio.val / 10)).getLsbD (modeShift gpio + i) && decide (i < 3)) := by
  rw [gpioGetMode, BitVec.getLsbD_and, BitVec.getLsbD_ushiftRight, getLsbD_seven]

/-- The bits of a field of three bits that is written into a register. -/
theorem getLsbD_field (word mode : Word) {shift j : ℕ} (hj : j < 32) :
    ((word &&& ~~~(7#32 <<< shift)) ||| mode <<< shift).getLsbD j =
      (word.getLsbD j && !(decide (shift ≤ j) && decide (j < shift + 3)) ||
        decide (shift ≤ j) && mode.getLsbD (j - shift)) := by
  rw [BitVec.getLsbD_or, BitVec.getLsbD_and, BitVec.getLsbD_not,
    BitVec.getLsbD_shiftLeft, BitVec.getLsbD_shiftLeft, getLsbD_seven]
  by_cases hle : shift ≤ j
  · have hthree : decide (j - shift < 3) = decide (j < shift + 3) := by
      rw [decide_eq_decide]
      omega
    simp [hj, hle, hthree, Nat.not_lt.mpr hle]
  · simp [hj, hle, Nat.not_le.mp hle]

/-- The mode is set and no other mode changes. -/
theorem gpioGetMode_gpioSetMode (fsel : ℕ → Word) (gpio other : Gpio) {mode : Word}
    (hmode : ∀ i, 3 ≤ i → mode.getLsbD i = false) :
    gpioGetMode (gpioSetMode fsel gpio mode) other =
      if other = gpio then mode else gpioGetMode fsel other := by
  apply BitVec.eq_of_getLsbD_eq
  intro i hi
  have hshift : modeShift other ≤ 27 := by
    unfold modeShift
    omega
  rw [getLsbD_gpioGetMode, gpioSetMode, Function.update_apply]
  by_cases hlow : i < 3
  · by_cases hsame : other = gpio
    · subst hsame
      rw [if_pos rfl, if_pos rfl, getLsbD_field _ _ (by omega)]
      simp [hlow]
    · rw [if_neg hsame, getLsbD_gpioGetMode]
      split
      next hregister =>
        -- Two outputs of one register have fields that do not overlap.
        have hother : modeShift other + i < modeShift gpio ∨
            modeShift gpio + 3 ≤ modeShift other + i := by
          have hne : other.val ≠ gpio.val := fun h => hsame (Fin.ext h)
          unfold modeShift
          omega
        rw [getLsbD_field _ _ (by omega), hregister]
        rcases hother with hbelow | habove
        · simp [Nat.not_le.mpr hbelow]
        · rw [hmode _ (by omega)]
          simp [Nat.not_lt.mpr habove]
      next => rfl
  · rw [decide_eq_false hlow, Bool.and_false]
    split
    · exact (hmode i (by omega)).symm
    · rw [getLsbD_gpioGetMode, decide_eq_false hlow, Bool.and_false]

theorem mode_high (fsel : ℕ → Word) (gpio : Gpio) (i : ℕ) (hi : 3 ≤ i) :
    (gpioGetMode fsel gpio).getLsbD i = false := by
  rw [getLsbD_gpioGetMode, decide_eq_false (by omega), Bool.and_false]

theorem out_high (i : ℕ) (hi : 3 ≤ i) : GPIO_MODE_OUT.getLsbD i = false := by
  rw [GPIO_MODE_OUT, BitVec.getLsbD_one]
  simp
  omega

/-! ## What `terminate` puts back -/

variable {fsel fsel' : ℕ → Word} {gpio : Gpio} {servos : List (Option Gpio)}

theorem takeOver_other (h : some gpio ∉ servos) :
    gpioGetMode (takeOver fsel servos).1 gpio = gpioGetMode fsel gpio := by
  induction servos generalizing fsel with
  | nil => rfl
  | cons q rest ih =>
      have hrest := fun hmem => h (List.mem_cons_of_mem q hmem)
      cases q with
      | none => exact ih hrest
      | some q =>
          have hne : gpio ≠ q := fun heq => h (heq ▸ List.mem_cons_self)
          rw [takeOver, ih hrest, gpioGetMode_gpioSetMode _ _ _ out_high, if_neg hne]

/-- The noted modes are modes, so that a mode that is put back is the only one that
changes. -/
theorem giveBack_other (h : some gpio ∉ servos) :
    gpioGetMode (giveBack fsel' servos (takeOver fsel servos).2) gpio =
      gpioGetMode fsel' gpio := by
  induction servos generalizing fsel fsel' with
  | nil => rfl
  | cons q rest ih =>
      have hrest := fun hmem => h (List.mem_cons_of_mem q hmem)
      cases q with
      | none => exact ih hrest
      | some q =>
          have hne : gpio ≠ q := fun heq => h (heq ▸ List.mem_cons_self)
          rw [takeOver, giveBack, ih hrest,
            gpioGetMode_gpioSetMode _ _ _ (mode_high fsel q), if_neg hne]

theorem giveBack_once (hnodup : servos.reduceOption.Nodup) (h : some gpio ∈ servos) :
    gpioGetMode (giveBack fsel' servos (takeOver fsel servos).2) gpio =
      gpioGetMode fsel gpio := by
  induction servos generalizing fsel fsel' with
  | nil => cases h
  | cons q rest ih =>
      cases q with
      | none =>
          rw [List.reduceOption_cons_of_none] at hnodup
          exact ih hnodup (List.mem_of_ne_of_mem (by simp) h)
      | some q =>
          rw [List.reduceOption_cons_of_some, List.nodup_cons,
            List.reduceOption_mem_iff] at hnodup
          rw [takeOver, giveBack]
          by_cases heq : gpio = q
          · subst heq
            rw [giveBack_other hnodup.1,
              gpioGetMode_gpioSetMode _ _ _ (mode_high fsel gpio), if_pos rfl]
          · rw [ih hnodup.2 (List.mem_of_ne_of_mem (by simpa using heq) h),
              gpioGetMode_gpioSetMode _ _ _ out_high, if_neg heq]

/-- An output that is noted as an output stays one. -/
theorem giveBack_out (h : some gpio ∈ servos)
    (hout : gpioGetMode fsel gpio = GPIO_MODE_OUT) :
    gpioGetMode (giveBack fsel' servos (takeOver fsel servos).2) gpio =
      GPIO_MODE_OUT := by
  induction servos generalizing fsel fsel' with
  | nil => cases h
  | cons q rest ih =>
      cases q with
      | none => exact ih (List.mem_of_ne_of_mem (by simp) h) hout
      | some q =>
          rw [takeOver, giveBack]
          by_cases hmem : some gpio ∈ rest
          · refine ih hmem ?_
            rw [gpioGetMode_gpioSetMode _ _ _ out_high, hout, ite_self]
          · have heq : gpio = q := by
              rcases List.mem_cons.mp h with hhead | htail
              · exact Option.some.inj hhead
              · exact absurd htail hmem
            subst heq
            rw [giveBack_other hmem,
              gpioGetMode_gpioSetMode _ _ _ (mode_high fsel gpio), if_pos rfl, hout]

/-- The second servo of an output notes the mode that the first one has set. -/
theorem giveBack_twice (h : List.Duplicate gpio servos.reduceOption) :
    gpioGetMode (giveBack fsel' servos (takeOver fsel servos).2) gpio =
      GPIO_MODE_OUT := by
  induction servos generalizing fsel fsel' with
  | nil => cases h
  | cons q rest ih =>
      cases q with
      | none => exact ih (by rwa [List.reduceOption_cons_of_none] at h)
      | some q =>
          rw [List.reduceOption_cons_of_some, List.duplicate_cons_iff,
            List.reduceOption_mem_iff] at h
          rw [takeOver, giveBack]
          rcases h with ⟨rfl, hmem⟩ | hrest
          · refine giveBack_out hmem ?_
            rw [gpioGetMode_gpioSetMode _ _ _ out_high, if_pos rfl]
          · exact ih hrest

/-- The registers that `terminate` leaves. -/
def restored (fsel : ℕ → Word) (servos : List (Option Gpio)) : ℕ → Word :=
  giveBack (takeOver fsel servos).1 servos (takeOver fsel servos).2

/-- `terminate` puts every output back into its mode, whatever the modes were, if and
only if no output belongs to two servos. -/
theorem modes_restored_iff (c : Setup) :
    (∀ fsel gpio, gpioGetMode (restored fsel c.servo2gpio) gpio =
      gpioGetMode fsel gpio) ↔ c.Distinct := by
  have hdistinct : c.Distinct ↔ c.servo2gpio.reduceOption.Nodup :=
    nodup_reduceOption_iff.symm
  rw [hdistinct]
  constructor
  · intro hall
    by_contra htwice
    obtain ⟨gpio, hgpio⟩ := List.exists_duplicate_iff_not_nodup.mpr htwice
    have hin := hall (fun _ => 0#32) gpio
    rw [restored, giveBack_twice hgpio] at hin
    simp [gpioGetMode, GPIO_MODE_OUT] at hin
  · intro hnodup fsel gpio
    by_cases hmem : some gpio ∈ c.servo2gpio
    · exact giveBack_once hnodup hmem
    · rw [restored, giveBack_other hmem, takeOver_other hmem]

end MyCub.Servod
