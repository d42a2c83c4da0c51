import MyCub.DecimalText

/-!
# The cache of the speech component

A message is spoken from a file that was downloaded for it.  Files are numbered by
the rows of the table, and whether a file exists is asked of `ls` through a pipe
that carries its standard output only, where an error message never appears.  A
history is a sequence of requests, each with what its download would do, and of
deletions of files.

The database, `ls` and the shell are parameters, with what they are known to do.  The
shell expands the message before it starts the download; only a message without the
characters that are active there leaves the cache alone.
-/

namespace MyCub.Speech

open DecimalText

/-- A text without quotes. -/
abbrev Message :=
  { text : List Char // Char.ofNat 39 ∉ text ∧ Char.ofNat 34 ∉ text }

def nul : Char := Char.ofNat 0

/-- The dollar sign, the back quote and the backslash are active in a double-quoted
word, and a null character would end the command. -/
def Inert (msg : Message) : Prop :=
  ∀ c ∈ msg.val, c ≠ Char.ofNat 36 ∧ c ≠ Char.ofNat 96 ∧ c ≠ Char.ofNat 92 ∧
    c ≠ nul

instance decidableInert (msg : Message) : Decidable (Inert msg) :=
  List.decidableBAll _ msg.val

theorem Inert.nul_notMem {msg : Message} (h : Inert msg) : nul ∉ msg.val :=
  fun hmem => (h nul hmem).2.2.2 rfl

inductive Content
  | audio (text : List Char)
  | other
  deriving DecidableEq

structure Row where
  message : Message
  langauge : List Char
  filename : List Char
  deriving DecidableEq

structure Cache where
  rows : List Row
  files : List Char → Option Content

/-- A download that fails may have created its file. -/
inductive Download
  | succeeds
  | fails (created : Bool)
  deriving DecidableEq, Repr

def Download.write (download : Download) (text : List Char)
    (old : Option Content) : Option Content :=
  match download with
  | .succeeds => some (.audio text)
  | .fails true => some .other
  | .fails false => old

def cacheFolder : List Char := "./cache".toList

def defaultLanguage : List Char := "en".toList

def fileName (id : ℕ) : List Char :=
  Nat.toDigits 10 id ++ ".voc".toList

/-- The programs that the component uses: what `ls` writes to its standard output and
to its standard error, the statements to the database, what the shell does while it
expands the word that holds a message, and the text that is downloaded then. -/
structure Tools where
  ls : (List Char → Option Content) → List Char → List Char × List Char
  count : List Row → ℕ
  insert : Row → List Row → List Row
  select : Message → List Char → List Row → Option Row
  expand : Message → Cache → Cache
  expanded : Message → List Char

/-- What is known of them: `ls` reports a missing file on its standard error only;
the database adds a row for a message that it does not hold, and finds rows by their
texts, as long as these hold no null character; the shell leaves an inert message as
it is. -/
structure Tools.Usual (T : Tools) : Prop where
  ls : ∀ files id,
    ¬ "cannot access".toList <:+:
      (T.ls files (cacheFolder ++ "/".toList ++ fileName id)).1
  count : ∀ rows, T.count rows = rows.length
  insert_new : ∀ row rows, nul ∉ row.message.val →
    row.message ∉ rows.map Row.message → T.insert row rows = rows ++ [row]
  select : ∀ msg lang rows, nul ∉ msg.val → T.select msg lang rows =
    rows.find? fun row => row.message = msg ∧ row.langauge = lang
  expand : ∀ msg s, Inert msg → T.expand msg s = s
  expanded : ∀ msg, Inert msg → T.expanded msg = msg.val

section code

variable (T : Tools)

def popen (output : List Char × List Char) : List Char :=
  output.1

def vocfileExists (files : List Char → Option Content)
    (fname : List Char) : Bool :=
  let result := popen (T.ls files (cacheFolder ++ "/".toList ++ fname))
  if "cannot access".toList <:+: result then false else true

def cacheSpeech (msg : Message) (lang : Option (List Char))
    (download : Download) (s : Cache) : Option (List Char) × Cache :=
  let lang := lang.getD defaultLanguage
  let fname := fileName (T.count s.rows + 1)
  let s := T.expand msg s
  let files := Function.update s.files fname
    (download.write (T.expanded msg) (s.files fname))
  if vocfileExists T files fname = false then (none, { s with files := files })
  else (some fname, ⟨T.insert ⟨msg, lang, fname⟩ s.rows, files⟩)

def uncache (msg : Message) (lang : Option (List Char)) (s : Cache) :
    Option (List Char) :=
  let lang := lang.getD defaultLanguage
  match T.select msg lang s.rows with
  | none => none
  | some row =>
      if vocfileExists T s.files row.filename ≠ false then some row.filename
      else none

/-- The body of the main loop: the file that is played, and the cache. -/
def serve (msg : Message) (download : Download) (s : Cache) :
    Option (List Char) × Cache :=
  match uncache T msg none s with
  | some fname => (some fname, s)
  | none => cacheSpeech T msg none download s

end code

inductive Event
  | request (msg : Message) (download : Download)
  | delete (fname : List Char)
  deriving DecidableEq

def step (T : Tools) (s : Cache) : Event → Cache
  | .request msg download => (serve T msg download s).2
  | .delete fname => { s with files := Function.update s.files fname none }

/-- The cache after a history, from an empty table and an empty folder. -/
def run (T : Tools) (history : List Event) : Cache :=
  history.foldl (step T) ⟨[], fun _ => none⟩

/-! ## The look-up of a file always succeeds -/

theorem fileName_injective : Function.Injective fileName := by
  intro m n h
  exact toDigits_inj (List.append_cancel_right h)

theorem Tools.Usual.vocfileExists_fileName {T : Tools} (husual : T.Usual)
    (files : List Char → Option Content) (id : ℕ) :
    vocfileExists T files (fileName id) = true :=
  if_neg (husual.ls files id)

/-! ## What the table and the folder hold after a history -/

def requested (history : List Event) : List Message :=
  history.filterMap fun event =>
    match event with
    | .request msg _ => some msg
    | .delete _ => none

/-- The file of a message that is first requested after this history. -/
def newName (before : List Event) : List Char :=
  fileName ((requested before).dedup.length + 1)

/-- The file of a message holds its audio just if the download for its first
request has succeeded and nobody has deleted it since. -/
structure Recorded (history : List Event) (s : Cache) : Prop where
  nodup : (s.rows.map Row.message).Nodup
  messages : ∀ msg, msg ∈ s.rows.map Row.message ↔ msg ∈ requested history
  language : ∀ row ∈ s.rows, row.langauge = defaultLanguage
  names : ∀ row ∈ s.rows, ∃ n < s.rows.length, row.filename = fileName (n + 1)
  unused : ∀ n, s.rows.length ≤ n → s.files (fileName (n + 1)) = none
  content : ∀ before msg download after,
    history = before ++ .request msg download :: after →
    msg ∉ requested before →
    ∃ row ∈ s.rows, row.message = msg ∧ row.filename = newName before ∧
      (s.files row.filename = some (.audio msg.val) ↔
        download = .succeeds ∧ .delete row.filename ∉ after)

theorem requested_concat_request (history : List Event) (msg : Message)
    (download : Download) :
    requested (history ++ [.request msg download]) =
      requested history ++ [msg] := by
  simp [requested]

theorem requested_concat_delete (history : List Event) (fname : List Char) :
    requested (history ++ [.delete fname]) = requested history := by
  simp [requested]

theorem concat_split {history before after : List Event} {e x : Event}
    (h : history ++ [e] = before ++ x :: after) :
    (after = [] ∧ before = history ∧ x = e) ∨
      ∃ after', after = after' ++ [e] ∧ history = before ++ x :: after' := by
  rcases List.eq_nil_or_concat after with rfl | ⟨after', e', rfl⟩
  · obtain ⟨hbefore, hx⟩ := List.append_inj' h rfl
    exact .inl ⟨rfl, hbefore.symm, (List.cons.inj hx).1.symm⟩
  · rw [List.concat_eq_append, ← List.cons_append, ← List.append_assoc] at h
    obtain ⟨hhistory, he⟩ := List.append_inj' h rfl
    rw [(List.cons.inj he).1]
    exact .inr ⟨after', List.concat_eq_append, hhistory⟩

section recorded

variable {T : Tools} (husual : T.Usual) {history : List Event} {s : Cache}

theorem Recorded.count (h : Recorded history s) :
    s.rows.length = (requested history).dedup.length := by
  have hperm : (s.rows.map Row.message).Perm (requested history).dedup := by
    apply (List.perm_ext_iff_of_nodup h.nodup (List.nodup_dedup _)).mpr
    intro msg
    rw [h.messages, List.mem_dedup]
  rw [← hperm.length_eq, List.length_map]

include husual

theorem Recorded.uncache_row (h : Recorded history s) {row : Row}
    (hrow : row ∈ s.rows) (htext : nul ∉ row.message.val) :
    uncache T row.message none s = some row.filename := by
  obtain ⟨n, -, hname⟩ := h.names row hrow
  have hexists : vocfileExists T s.files row.filename ≠ false := by
    rw [hname, husual.vocfileExists_fileName]
    decide
  have hfind : (s.rows.find? fun row' =>
      row'.message = row.message ∧ row'.langauge = defaultLanguage) =
        some row := by
    cases hresult : s.rows.find? fun row' =>
        row'.message = row.message ∧ row'.langauge = defaultLanguage with
    | none =>
        have hnone := List.find?_eq_none.mp hresult row hrow
        simp [h.language row hrow] at hnone
    | some row' =>
        have hsame := List.find?_some hresult
        have hmem := List.mem_of_find?_eq_some hresult
        simp only [decide_eq_true_eq] at hsame
        rw [List.inj_on_of_nodup_map h.nodup hmem hrow hsame.1]
  unfold uncache
  simp only [Option.getD_none, husual.select _ _ _ htext, hfind]
  exact if_pos hexists

theorem uncache_unknown {msg : Message} (htext : nul ∉ msg.val)
    (hmsg : msg ∉ s.rows.map Row.message) : uncache T msg none s = none := by
  have hfind : (s.rows.find? fun row =>
      row.message = msg ∧ row.langauge = defaultLanguage) = none := by
    apply List.find?_eq_none.mpr
    intro row hrow hfound
    simp only [decide_eq_true_eq] at hfound
    exact hmsg (List.mem_map.mpr ⟨row, hrow, hfound.1⟩)
  unfold uncache
  simp only [Option.getD_none, husual.select _ _ _ htext, hfind]

theorem serve_known (h : Recorded history s) {msg : Message}
    (hinert : Inert msg) (hmsg : msg ∈ s.rows.map Row.message)
    (download : Download) : (serve T msg download s).2 = s := by
  obtain ⟨row, hrow, rfl⟩ := List.mem_map.mp hmsg
  unfold serve
  rw [h.uncache_row husual hrow hinert.nul_notMem]

/-- The row for a message that has none. -/
def newRow (msg : Message) (s : Cache) : Row where
  message := msg
  langauge := defaultLanguage
  filename := fileName (s.rows.length + 1)

theorem serve_unknown {msg : Message} (hinert : Inert msg)
    (hmsg : msg ∉ s.rows.map Row.message) (download : Download) :
    (serve T msg download s).2 =
      { rows := s.rows ++ [newRow msg s]
        files := Function.update s.files (fileName (s.rows.length + 1))
          (download.write msg.val
            (s.files (fileName (s.rows.length + 1)))) } := by
  unfold serve
  rw [uncache_unknown husual hinert.nul_notMem hmsg]
  unfold cacheSpeech
  simp only [husual.count, husual.expand msg s hinert,
    husual.expanded msg hinert, husual.vocfileExists_fileName,
    Option.getD_none]
  rw [if_neg (by decide)]
  simp only [husual.insert_new ⟨msg, defaultLanguage, _⟩ s.rows
    hinert.nul_notMem hmsg]
  rfl

omit husual in
/-- The name of a new file is the name of no row. -/
theorem Recorded.name_ne_new (h : Recorded history s) {row : Row}
    (hrow : row ∈ s.rows) : row.filename ≠ fileName (s.rows.length + 1) := by
  obtain ⟨n, hn, hname⟩ := h.names row hrow
  rw [hname]
  intro heq
  have := fileName_injective heq
  omega

/-- A request leaves the file of every row as it is. -/
theorem Recorded.serve_files (h : Recorded history s) {msg : Message}
    (hinert : Inert msg) (download : Download) {row : Row}
    (hrow : row ∈ s.rows) :
    (serve T msg download s).2.files row.filename = s.files row.filename := by
  by_cases hmsg : msg ∈ s.rows.map Row.message
  · rw [serve_known husual h hinert hmsg]
  · rw [serve_unknown husual hinert hmsg]
    exact Function.update_of_ne (h.name_ne_new hrow) _ _

omit husual

/-- The last event of a history can spoil an older file by deleting it only, and
has to account for a message that it is the first to request. -/
theorem Recorded.content_concat (h : Recorded history s) {e : Event}
    {s' : Cache} (hrows : ∀ row ∈ s.rows, row ∈ s'.rows)
    (hfiles : ∀ row ∈ s.rows, ∀ msg : Message,
      s'.files row.filename = some (.audio msg.val) ↔
        s.files row.filename = some (.audio msg.val) ∧ .delete row.filename ≠ e)
    (hnew : ∀ msg download, .request msg download = e →
      msg ∉ requested history →
      ∃ row ∈ s'.rows, row.message = msg ∧ row.filename = newName history ∧
        (s'.files row.filename = some (.audio msg.val) ↔ download = .succeeds))
    (before : List Event) (msg : Message) (download : Download)
    (after : List Event)
    (hsplit : history ++ [e] = before ++ .request msg download :: after)
    (hfresh : msg ∉ requested before) :
    ∃ row ∈ s'.rows, row.message = msg ∧ row.filename = newName before ∧
      (s'.files row.filename = some (.audio msg.val) ↔
        download = .succeeds ∧ .delete row.filename ∉ after) := by
  rcases concat_split hsplit with ⟨rfl, rfl, hevent⟩ | ⟨after', rfl, hhistory⟩
  · obtain ⟨row, hrow, hmessage, hname, hcontent⟩ :=
      hnew msg download hevent hfresh
    refine ⟨row, hrow, hmessage, hname, ?_⟩
    rw [hcontent]
    simp
  · obtain ⟨row, hrow, hmessage, hname, hcontent⟩ :=
      h.content before msg download after' hhistory hfresh
    refine ⟨row, hrows row hrow, hmessage, hname, ?_⟩
    rw [hfiles row hrow, hcontent, List.mem_append, List.mem_singleton,
      not_or, and_assoc]

theorem Recorded.delete (h : Recorded history s) (fname : List Char) :
    Recorded (history ++ [.delete fname]) (step T s (.delete fname)) where
  nodup := h.nodup
  messages := by
    intro msg
    rw [requested_concat_delete]
    exact h.messages msg
  language := h.language
  names := h.names
  unused := by
    intro n hn
    change Function.update s.files fname none (fileName (n + 1)) = none
    by_cases heq : fileName (n + 1) = fname
    · rw [heq, Function.update_self]
    · rw [Function.update_of_ne heq]
      exact h.unused n hn
  content := by
    refine h.content_concat ?_ ?_ ?_
    · intro row hrow
      exact hrow
    · intro row _ msg
      change Function.update s.files fname none row.filename = _ ↔ _
      by_cases heq : row.filename = fname
      · rw [heq, Function.update_self]
        simp
      · rw [Function.update_of_ne heq]
        simp [heq]
    · intro msg download hevent
      cases hevent

theorem Recorded.request_known (h : Recorded history s) {msg : Message}
    (hmsg : msg ∈ s.rows.map Row.message) (download : Download) :
    Recorded (history ++ [.request msg download]) s where
  nodup := h.nodup
  messages := by
    intro other
    rw [requested_concat_request, List.mem_append, h.messages]
    have hrequested := (h.messages msg).mp hmsg
    constructor
    · exact .inl
    · rintro (hother | hother)
      · exact hother
      · rw [List.mem_singleton.mp hother]
        exact hrequested
  language := h.language
  names := h.names
  unused := h.unused
  content := by
    apply h.content_concat (fun _ hrow => hrow)
    · intro row _ other
      simp
    · intro other download' hevent hfresh
      cases hevent
      exact absurd ((h.messages msg).mp hmsg) hfresh

theorem Download.write_new (download : Download) (text : List Char) :
    download.write text none = some (.audio text) ↔ download = .succeeds := by
  cases download with
  | succeeds => simp [Download.write]
  | fails created =>
      cases created with
      | true => simp [Download.write]
      | false => simp [Download.write]

theorem Recorded.nodup_new (h : Recorded history s) {msg : Message}
    (hmsg : msg ∉ s.rows.map Row.message) :
    ((s.rows ++ [newRow msg s]).map Row.message).Nodup := by
  rw [List.map_append, List.nodup_append]
  refine ⟨h.nodup, List.nodup_singleton msg, ?_⟩
  intro other hother new hnew heq
  have hmessage : other = msg := heq.trans (List.mem_singleton.mp hnew)
  rw [hmessage] at hother
  exact hmsg hother

/-- The new row has the next number, so the numbers of the rows stay below their
count. -/
theorem Recorded.names_new (h : Recorded history s) (msg : Message) {row : Row}
    (hrow : row ∈ s.rows ++ [newRow msg s]) :
    ∃ n < s.rows.length + 1, row.filename = fileName (n + 1) := by
  rcases List.mem_append.mp hrow with hold | hnew
  · obtain ⟨n, hn, hname⟩ := h.names row hold
    exact ⟨n, by omega, hname⟩
  · rw [List.mem_singleton.mp hnew]
    exact ⟨s.rows.length, by omega, rfl⟩

theorem Recorded.unused_new (h : Recorded history s) (new : Option Content)
    {n : ℕ} (hn : s.rows.length + 1 ≤ n) :
    Function.update s.files (fileName (s.rows.length + 1)) new
      (fileName (n + 1)) = none := by
  have hne : fileName (n + 1) ≠ fileName (s.rows.length + 1) := by
    intro heq
    have := fileName_injective heq
    omega
  rw [Function.update_of_ne hne]
  exact h.unused n (by omega)

include husual in
theorem Recorded.request_new (h : Recorded history s) {msg : Message}
    (hinert : Inert msg) (hmsg : msg ∉ s.rows.map Row.message)
    (download : Download) :
    Recorded (history ++ [.request msg download])
      (serve T msg download s).2 := by
  have hfiles : ∀ row ∈ s.rows, (serve T msg download s).2.files row.filename =
      s.files row.filename :=
    fun row hrow => h.serve_files husual hinert download hrow
  rw [serve_unknown husual hinert hmsg] at hfiles ⊢
  have hlength : (s.rows ++ [newRow msg s]).length = s.rows.length + 1 :=
    List.length_append
  constructor
  · exact h.nodup_new hmsg
  · intro other
    rw [List.map_append, requested_concat_request, List.mem_append,
      List.mem_append, h.messages]
    rfl
  · intro row hrow
    rcases List.mem_append.mp hrow with hold | hnew
    · exact h.language row hold
    · rw [List.mem_singleton.mp hnew]
      rfl
  · intro row hrow
    rw [hlength]
    exact h.names_new msg hrow
  · intro n hn
    rw [hlength] at hn
    exact h.unused_new _ hn
  · apply h.content_concat (fun _ hrow => List.mem_append_left _ hrow)
    · intro row hrow other
      rw [hfiles row hrow]
      simp
    · intro other download' hevent _
      cases hevent
      have hnew : newRow msg s ∈ s.rows ++ [newRow msg s] :=
        List.mem_append_right _ (List.mem_singleton_self _)
      refine ⟨newRow msg s, hnew, rfl, ?_, ?_⟩
      · rw [newName, ← h.count]
        rfl
      · change Function.update s.files (fileName (s.rows.length + 1)) _
          (fileName (s.rows.length + 1)) = _ ↔ _
        rw [Function.update_self, h.unused _ le_rfl]
        exact download.write_new msg.val

end recorded

theorem recorded_run {T : Tools} (husual : T.Usual) (history : List Event)
    (hinert : ∀ msg ∈ requested history, Inert msg) :
    Recorded history (run T history) := by
  induction history using List.reverseRecOn with
  | nil =>
      constructor
      · exact List.nodup_nil
      · simp [run, requested]
      · simp [run]
      · simp [run]
      · intro n _
        rfl
      · intro before msg download after hsplit
        cases before with
        | nil => cases hsplit
        | cons e before => cases hsplit
  | append_singleton history e ih =>
      have hrun : run T (history ++ [e]) = step T (run T history) e := by
        rw [run, List.foldl_append]
        rfl
      rw [hrun]
      cases e with
      | delete fname =>
          rw [requested_concat_delete] at hinert
          exact (ih hinert).delete fname
      | request msg download =>
          rw [requested_concat_request, List.forall_mem_append,
            List.forall_mem_singleton] at hinert
          have hbefore := ih hinert.1
          change Recorded _ (serve T msg download (run T history)).2
          by_cases hmsg : msg ∈ (run T history).rows.map Row.message
          · rw [serve_known husual hbefore hinert.2 hmsg]
            exact hbefore.request_known hmsg download
          · exact hbefore.request_new husual hinert.2 hmsg download

/-! ## Soundness of the cache -/

/-- Every first request was downloaded, and no file was deleted after its
download. -/
def Kept (history : List Event) : Prop :=
  ∀ before msg download after,
    history = before ++ .request msg download :: after →
    msg ∉ requested before →
    download = .succeeds ∧ .delete (newName before) ∉ after

/-- A requested message has a first request. -/
theorem exists_first_request {history : List Event} {msg : Message}
    (hmsg : msg ∈ requested history) :
    ∃ before download after,
      history = before ++ .request msg download :: after ∧
      msg ∉ requested before := by
  induction history using List.reverseRecOn with
  | nil => cases hmsg
  | append_singleton history e ih =>
      by_cases hearlier : msg ∈ requested history
      · obtain ⟨before, download, after, hsplit, hfresh⟩ := ih hearlier
        refine ⟨before, download, after ++ [e], ?_, hfresh⟩
        rw [hsplit, List.append_assoc]
        rfl
      · cases e with
        | delete fname =>
            rw [requested_concat_delete] at hmsg
            exact absurd hmsg hearlier
        | request other download =>
            rw [requested_concat_request, List.mem_append] at hmsg
            have hother : msg = other :=
              List.mem_singleton.mp (hmsg.resolve_left hearlier)
            rw [hother] at hearlier ⊢
            exact ⟨history, download, [], rfl, hearlier⟩

/-- After every history of inert messages, no request for one changes a recorded
file, and the cache answers with files that hold the right audio just if all first
downloads have succeeded and their files were kept. -/
theorem speech_cache_sound_iff {T : Tools} (husual : T.Usual)
    (history : List Event) (hinert : ∀ msg ∈ requested history, Inert msg) :
    (∀ msg download, Inert msg → ∀ row ∈ (run T history).rows,
      (step T (run T history) (.request msg download)).files row.filename =
        (run T history).files row.filename) ∧
    ((∀ (msg : Message) fname, Inert msg →
        uncache T msg none (run T history) = some fname →
        (run T history).files fname = some (.audio msg.val)) ↔
      Kept history) := by
  have h := recorded_run husual history hinert
  constructor
  · intro msg download hmsg row hrow
    exact h.serve_files husual hmsg download hrow
  constructor
  · intro hsound before msg download after hsplit hfresh
    obtain ⟨row, hrow, rfl, hname, hcontent⟩ :=
      h.content before msg download after hsplit hfresh
    have hmsg := hinert row.message
      ((h.messages _).mp (List.mem_map_of_mem hrow))
    rw [← hname, ← hcontent]
    exact hsound _ _ hmsg (h.uncache_row husual hrow hmsg.nul_notMem)
  · intro hkept msg fname hmsg huncache
    have hknown : msg ∈ (run T history).rows.map Row.message := by
      by_contra hunknown
      rw [uncache_unknown husual hmsg.nul_notMem hunknown] at huncache
      cases huncache
    obtain ⟨before, download, after, hsplit, hfresh⟩ :=
      exists_first_request ((h.messages msg).mp hknown)
    obtain ⟨row, hrow, rfl, hname, hcontent⟩ :=
      h.content before msg download after hsplit hfresh
    rw [h.uncache_row husual hrow hmsg.nul_notMem] at huncache
    cases huncache
    rw [hcontent, hname]
    exact hkept before row.message download after hsplit hfresh

/-! ## Requests that go wrong -/

def hello : Message := ⟨"hello".toList, by decide⟩

/-- A message that the shell runs as a command. -/
def removal : Message := ⟨"$(rm ./cache/1.voc)".toList, by decide⟩

/-- Tools with which `removal` removes the file it names, and everything else that is
active is left as it is. -/
def plainTools : Tools where
  ls := fun files path =>
    if (files (path.drop 8)).isSome then (path ++ "\n".toList, [])
    else ([], "ls: cannot access ".toList ++ path)
  count := List.length
  insert := fun row rows =>
    if row.message ∈ rows.map Row.message then rows else rows ++ [row]
  select := fun msg lang rows =>
    rows.find? fun row => row.message = msg ∧ row.langauge = lang
  expand := fun msg s =>
    if msg = removal then
      { s with files := Function.update s.files "1.voc".toList none }
    else s
  expanded := Subtype.val

theorem plainTools_usual : plainTools.Usual where
  ls := by
    intro files id hfound
    have hdigits : ' ' ∉ Nat.toDigits 10 id :=
      not_mem_of_digits (fun c hc => .inr ((isNumeral_toDigits id).2 c hc))
        (by decide)
    have hblank := hfound.mem (show ' ' ∈ "cannot access".toList by decide)
    unfold plainTools fileName cacheFolder at hblank
    dsimp only at hblank
    split at hblank
    · simp [hdigits] at hblank
    · cases hblank
  count := fun rows => rfl
  insert_new := fun row rows _ hnew => if_neg hnew
  select := fun msg lang rows _ => rfl
  expand := by
    intro msg s hinert
    apply if_neg
    rintro rfl
    revert hinert
    decide
  expanded := fun msg _ => rfl

theorem plainTools_removal (s : Cache) : plainTools.expand removal s =
    { s with files := Function.update s.files "1.voc".toList none } := by
  unfold plainTools
  dsimp only
  rw [if_pos rfl]

theorem kept_of_succeeding {history : List Event}
    (h : ∀ e ∈ history, ∃ msg, e = .request msg .succeeds) : Kept history := by
  rintro before msg download after rfl -
  constructor
  · obtain ⟨msg', heq⟩ := h (.request msg download) (by simp)
    cases heq
    rfl
  · intro hdelete
    obtain ⟨msg', heq⟩ := h (.delete (newName before)) (by simp [hdelete])
    cases heq

def goodbye : Message := ⟨"goodbye".toList, by decide⟩

theorem speech_cache_sound_two :
    ∃ history : List Event, (requested history).length = 2 ∧
      ∀ (msg : Message) fname, Inert msg →
        uncache plainTools msg none (run plainTools history) = some fname →
          (run plainTools history).files fname = some (.audio msg.val) := by
  let history : List Event := [.request hello .succeeds, .request goodbye .succeeds]
  have hinert : ∀ msg ∈ requested history, Inert msg := by decide
  have hkept : Kept history := by
    apply kept_of_succeeding
    rw [List.forall_mem_cons, List.forall_mem_singleton]
    exact ⟨⟨hello, rfl⟩, goodbye, rfl⟩
  exact ⟨history, rfl,
    (speech_cache_sound_iff plainTools_usual history hinert).2.mpr hkept⟩

section stale

variable {T : Tools} (husual : T.Usual)

include husual

theorem run_hello (download : Download) :
    run T [.request hello download] =
      { rows := [⟨hello, defaultLanguage, "1.voc".toList⟩]
        files := Function.update (fun _ => none) "1.voc".toList
          (download.write "hello".toList none) } :=
  serve_unknown husual (by decide) List.not_mem_nil download

theorem uncache_hello {s : Cache}
    (hrows : s.rows = [⟨hello, defaultLanguage, "1.voc".toList⟩]) :
    uncache T hello none s = some "1.voc".toList := by
  have hname : "1.voc".toList = fileName 1 := rfl
  unfold uncache
  simp only [Option.getD_none, husual.select _ _ _ (show nul ∉ hello.val by decide),
    hrows]
  rw [hname]
  simp [husual.vocfileExists_fileName]

/-- The download for a message that the shell runs as a command. -/
theorem serve_removal
    (hremoves : ∀ s, T.expand removal s =
      { s with files := Function.update s.files "1.voc".toList none })
    (download : Download) {s : Cache}
    (hrows : s.rows = [⟨hello, defaultLanguage, "1.voc".toList⟩]) :
    (serve T removal download s).2.files "1.voc".toList = none := by
  have hunknown : removal ∉ s.rows.map Row.message := by
    rw [hrows]
    decide
  have hother : "1.voc".toList ≠ fileName (1 + 1) := by decide
  unfold serve
  rw [uncache_unknown husual (by decide) hunknown]
  unfold cacheSpeech
  simp only [husual.count, hrows, hremoves, List.length_singleton,
    husual.vocfileExists_fileName]
  rw [if_neg (by decide)]
  dsimp only
  rw [Function.update_of_ne hother, Function.update_self]

end stale

/-- With all usual tools the cache answers with a file that was never downloaded, and
with one that has been deleted.  Where the shell runs what a message tells it to, the
download of one message removes the file recorded for another, although all downloads
succeed and nobody else deletes a file. -/
theorem speech_cache_stale :
    (∀ T : Tools, T.Usual →
      (uncache T hello none (run T [.request hello (.fails true)]) =
          some "1.voc".toList ∧
        (run T [.request hello (.fails true)]).files "1.voc".toList =
          some .other) ∧
      uncache T hello none
          (run T [.request hello .succeeds, .delete "1.voc".toList]) =
        some "1.voc".toList ∧
      (run T [.request hello .succeeds, .delete "1.voc".toList]).files
        "1.voc".toList = none) ∧
    (∀ T : Tools, T.Usual →
      (∀ s, T.expand removal s =
        { s with files := Function.update s.files "1.voc".toList none }) →
      (run T [.request hello .succeeds]).files "1.voc".toList =
          some (.audio hello.val) ∧
        (step T (run T [.request hello .succeeds])
          (.request removal .succeeds)).files "1.voc".toList = none ∧
        Kept [.request hello .succeeds, .request removal .succeeds]) ∧
    plainTools.Usual ∧ ∀ s, plainTools.expand removal s =
      { s with files := Function.update s.files "1.voc".toList none } := by
  refine ⟨?_, ?_, plainTools_usual, plainTools_removal⟩
  · intro T husual
    have hdeleted : run T [.request hello .succeeds, .delete "1.voc".toList] =
        step T (run T [.request hello .succeeds]) (.delete "1.voc".toList) := rfl
    rw [hdeleted, run_hello husual, run_hello husual]
    refine ⟨⟨uncache_hello husual rfl, ?_⟩, uncache_hello husual rfl, ?_⟩
    · dsimp only
      rw [Function.update_self]
      rfl
    · dsimp only [step]
      rw [Function.update_self]
  · intro T husual hremoves
    have hrun := run_hello husual .succeeds
    refine ⟨?_, ?_, ?_⟩
    · rw [hrun]
      dsimp only
      rw [Function.update_self]
      rfl
    · exact serve_removal husual hremoves .succeeds (by rw [hrun])
    · apply kept_of_succeeding
      rw [List.forall_mem_cons, List.forall_mem_singleton]
      exact ⟨⟨hello, rfl⟩, removal, rfl⟩

end MyCub.Speech
