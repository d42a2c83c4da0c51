import MyCub.ServodRing

/-!
# The memory of the servo daemon

The masks and the control blocks lie in one area of whole pages.  `main` computes the
number of pages before it knows where the blocks begin, which is a multiple of
32 bytes behind the masks.  `init_ctrl_data` translates the addresses of the masks and
of the blocks by a table with one entry for each page; the address behind the last
block is translated as well, before the last block is linked to the first.

The addresses are offsets from the start of the area.
-/

namespace MyCub.Servod

def PAGE_SIZE : ℕ := 4096

/-- The size of a control block. -/
def DMA_CB_SIZE : ℕ := 32

/-- `ROUNDUP` for a power of two. -/
def roundup (val blksz : ℕ) : ℕ :=
  (val + (blksz - 1)) / blksz * blksz

namespace Setup

section layout

variable (c : Setup)

def numCbs : ℕ :=
  c.numSamples * 2 + MAX_SERVOS

def numPages : ℕ :=
  (c.numCbs * DMA_CB_SIZE + c.numSamples * 4 + MAX_SERVOS * 4 + PAGE_SIZE - 1) /
    PAGE_SIZE

def turnonBase : ℕ :=
  c.numSamples * 4

def cbBase : ℕ :=
  roundup (c.numSamples + MAX_SERVOS) 8 * 4

/-- The word that a block transfers. -/
def src : Block → ℕ
  | .turnOff sample => sample * 4
  | .turnOn servo => c.turnonBase + servo * 4
  | .delay => 0

def cbAddress (k : ℕ) : ℕ :=
  c.cbBase + k * DMA_CB_SIZE

end layout

variable {c : Setup} {left i servo : ℕ}

/-- The blocks still to be written are two for each sample and one for each servo that
is still to start. -/
theorem length_blocksFrom_le (hharmless : c.Harmless) (hcursor : c.Cursor i servo)
    (hi : i + left = c.numSamples) :
    (c.blocksFrom left i servo).length + c.rank servo ≤ left * 2 + c.numServos := by
  induction left generalizing i servo with
  | zero =>
      have hrank : c.rank servo ≤ c.numServos :=
        (List.take_sublist _ _).countP_le
      rw [blocksFrom, List.length_nil]
      omega
  | succ left ih =>
      rcases hcursor.next (by omega) hharmless with
        ⟨hat, ⟨q, hq⟩, -, hnext⟩ | ⟨hat, -, hnext⟩
      · have hrest := ih hnext (by omega)
        have hrank := rank_lt_rank hq (c.le_skip (servo + 1))
        rw [blocksFrom, hat, if_pos rfl]
        simp only [List.length_cons]
        omega
      · have hrest := ih hnext (by omega)
        rw [blocksFrom, hat, if_neg Bool.false_ne_true]
        simp only [List.length_cons]
        omega

/-- Every block transfers a word of the masks. -/
theorem src_blocksFrom (hharmless : c.Harmless) (hcursor : c.Cursor i servo)
    (hi : i + left = c.numSamples) {b : Block} (hb : b ∈ c.blocksFrom left i servo) :
    c.src b + 4 ≤ (c.numSamples + MAX_SERVOS) * 4 := by
  have hmax : MAX_SERVOS = 32 := rfl
  have hdelay : c.src .delay = 0 := rfl
  induction left generalizing i servo with
  | zero => cases hb
  | succ left ih =>
      have hoff : c.src (.turnOff i) = i * 4 := rfl
      rcases hcursor.next (by omega) hharmless with
        ⟨hat, ⟨q, hq⟩, -, hnext⟩ | ⟨hat, -, hnext⟩
      · have hservo := c.size ▸ lt_length_of_gpio hq
        have hon : c.src (.turnOn servo) = c.numSamples * 4 + servo * 4 := rfl
        rw [blocksFrom, hat, if_pos rfl] at hb
        simp only [List.mem_cons] at hb
        rcases hb with rfl | rfl | rfl | hrest
        · omega
        · omega
        · omega
        · exact ih hnext (by omega) hrest
      · rw [blocksFrom, hat, if_neg Bool.false_ne_true] at hb
        simp only [List.mem_cons] at hb
        rcases hb with rfl | rfl | hrest
        · omega
        · omega
        · exact ih hnext (by omega) hrest

/-- The blocks are aligned, lie behind all words that they transfer, and every address
that is translated belongs to a page of the area, also the one behind the last block,
unless all servos are mapped. -/
theorem control_blocks_in_pages (hharmless : c.Harmless)
    (hfew : c.numServos < MAX_SERVOS) :
    DMA_CB_SIZE ∣ c.cbBase ∧ (∀ b ∈ c.initCtrlData, c.src b + 4 ≤ c.cbBase) ∧
      ∀ k ≤ c.initCtrlData.length, c.cbAddress k / PAGE_SIZE < c.numPages := by
  have hmax : MAX_SERVOS = 32 := rfl
  have hbase : c.cbBase = (c.numSamples + 32 + 7) / 8 * 8 * 4 := rfl
  refine ⟨⟨(c.numSamples + 32 + 7) / 8, ?_⟩, fun b hb => ?_, fun k hk => ?_⟩
  · rw [hbase, DMA_CB_SIZE]
    omega
  · have hsrc := src_blocksFrom hharmless cursor_first (Nat.zero_add _) hb
    omega
  · have hlength := length_blocksFrom_le hharmless cursor_first (Nat.zero_add _)
    have haddress : c.cbAddress k = c.cbBase + k * 32 := rfl
    have hpages : c.numPages = ((c.numSamples * 2 + 32) * 32 + c.numSamples * 4 +
        32 * 4 + 4096 - 1) / 4096 := rfl
    have hpage : PAGE_SIZE = 4096 := rfl
    rw [initCtrlData] at hk
    -- Rounding up to 32 bytes does not pass the end of a page.
    rw [hpage, Nat.div_lt_iff_lt_mul (by decide)]
    omega

theorem control_blocks_deployed :
    deployed.numServos < MAX_SERVOS ∧
      ∀ k ≤ deployed.initCtrlData.length,
        deployed.cbAddress k / PAGE_SIZE < deployed.numPages := by
  have hfew : deployed.numServos < MAX_SERVOS := by decide
  exact ⟨hfew, (control_blocks_in_pages harmless_deployed hfew).2.2⟩

end Setup

end MyCub.Servod
