import SymmetricCipher.Proofs.CommandLine

/-!
# What arguments are read as

Reading ends early only if an argument is wrong or asks for something to be shown
(`ofArguments_error`). Otherwise every argument adds to the draft of the options or leaves it alone
(`Draft.Becomes`), so that what the options hold was read from one of the arguments.
-/

namespace SymmetricCipher.Options

/-! ## Arguments that ask for help -/

/-- An argument that asks for help, or for the version. -/
def Asks (argument : String) : Prop :=
  argument = "--help" ∨ argument = "--version" ∨
    ['-', 'h'] <+: argument.toList ∨ ['-', 'V'] <+: argument.toList

instance (argument : String) : Decidable (Asks argument) :=
  inferInstanceAs (Decidable (_ ∨ _ ∨ _ ∨ _))

/-- Help is asked for by one long name only. -/
lemma ofLongName?_help {name : String} (h : ofLongName? name = some (.inr .help)) :
    name = "help" := by
  unfold ofLongName? at h
  split at h <;> cases h
  rfl

/-- The version is asked for by one long name only. -/
lemma ofLongName?_version {name : String} (h : ofLongName? name = some (.inr .version)) :
    name = "version" := by
  unfold ofLongName? at h
  split at h <;> cases h
  rfl

/-- The short names of switches. -/
lemma ofShortName?_switch {c : Char} {switch : Switch} (h : ofShortName? c = some (.inr switch)) :
    switch = .help ∧ c = 'h' ∨ switch = .version ∧ c = 'V' := by
  unfold ofShortName? at h
  split at h <;> cases h
  · exact .inl ⟨rfl, rfl⟩
  · exact .inr ⟨rfl, rfl⟩

namespace Reader

variable {r : Reader} {stop : Stop}

/-- Giving a value to a field asks for nothing: it is taken, or the arguments are refused. -/
lemma give_error {field : Field} {value : List Char} (h : r.give field value = .error stop) :
    stop = .refused := by
  rw [give] at h
  split at h <;> cases h
  rfl

/-- A switch that ends the reading is refused, or is one of the two that ask for something. -/
lemma turnOn_error {switch : Switch} (h : r.turnOn switch = .error stop) :
    stop = .refused ∨ switch = .help ∨ switch = .version := by
  cases switch with
  | help => exact .inr (.inl rfl)
  | version => exact .inr (.inr rfl)
  | noPadding =>
    rw [turnOn] at h
    split at h <;> cases h
    exact .inl rfl

/-- A long option ends the reading if it is refused or asks for something. -/
lemma readLong_error {text : List Char} (h : r.readLong text = .error stop) :
    stop = .refused ∨ text = "help".toList ∨ text = "version".toList := by
  rw [readLong] at h
  split at h
  · exact .inl (give_error h)
  · cases h
  · rename_i switch hname hrest
    -- there is no value, so that the name is all of the text
    have htext := List.takeWhile_append_dropWhile (p := (· != '=')) (l := text)
    rw [hrest, List.append_nil] at htext
    rw [htext] at hname
    rcases turnOn_error h with hrefused | rfl | rfl
    · exact .inl hrefused
    · exact .inr (.inl (by rw [← ofLongName?_help hname, String.toList_ofList]))
    · exact .inr (.inr (by rw [← ofLongName?_version hname, String.toList_ofList]))
  · cases h
    exact .inl rfl

/-- A group of short options ends the reading if it is refused or begins with one that asks for
something. -/
lemma readShort_error {text : List Char} (h : r.readShort text = .error stop) :
    stop = .refused ∨ ∃ rest, text = 'h' :: rest ∨ text = 'V' :: rest := by
  cases text with
  | nil => cases h
  | cons c rest =>
    unfold readShort at h
    split at h
    · cases h
    · exact .inl (give_error h)
    · exact .inl (give_error h)
    · rename_i switch _ hname
      rcases ofShortName?_switch hname with ⟨-, rfl⟩ | ⟨-, rfl⟩
      · exact .inr ⟨_, .inl rfl⟩
      · exact .inr ⟨_, .inr rfl⟩
    · cases h
      exact .inl rfl

/-- Reading an argument ends early if the argument is wrong, or if it asks for something to be
shown. -/
lemma read_error {argument : String} (h : r.read argument = .error stop) :
    stop = .refused ∨ Asks argument := by
  rw [read] at h
  split at h
  · cases h
    exact .inl rfl
  · split at h
    · cases h
    · rename_i text _ htext _
      refine (readLong_error h).imp_right ?_
      rintro (rfl | rfl)
      · exact .inl (String.toList_inj.1 htext)
      · exact .inr (.inl (String.toList_inj.1 htext))
    · rename_i c text _ _ htext _
      refine (readShort_error h).imp_right ?_
      rintro ⟨rest, hrest | hrest⟩
      · exact .inr (.inr (.inl ⟨rest, by rw [htext, hrest]; rfl⟩))
      · exact .inr (.inr (.inr ⟨rest, by rw [htext, hrest]; rfl⟩))
    · cases h
      exact .inl rfl
    · exact .inl (give_error h)
    · cases h
      exact .inl rfl

/-- The reading ends early if an argument is refused or asks for something. -/
lemma foldlM_error {arguments : List String} (h : arguments.foldlM read r = .error stop) :
    stop = .refused ∨ ∃ argument ∈ arguments, Asks argument := by
  induction arguments generalizing r with
  | nil => cases h
  | cons argument arguments ih =>
    rw [List.foldlM_cons] at h
    cases hr : r.read argument with
    | error stop' =>
      rw [hr] at h
      cases h
      exact (read_error hr).imp_right fun hasks => ⟨argument, List.mem_cons_self, hasks⟩
    | ok r' =>
      rw [hr] at h
      refine (ih h).imp_right ?_
      rintro ⟨other, hmem, hasks⟩
      exact ⟨other, List.mem_cons_of_mem argument hmem, hasks⟩

end Reader

/-- Nothing is shown in place of a run unless an argument asks for it. -/
lemma ofArguments_error {arguments : List String} {stop : Stop}
    (h : ofArguments arguments = .error stop) :
    stop = .refused ∨ ∃ argument ∈ arguments, Asks argument := by
  rw [ofArguments] at h
  split at h
  · rename_i stop' hr
    cases h
    exact Reader.foldlM_error hr
  · split at h <;> cases h
    exact .inl rfl

/-! ## Drafts of options -/

/-- A number that is read fits into a machine word. -/
lemma number?_le {text : String} {n : Nat} (h : number? text = some n) : n ≤ Word.max64 := by
  unfold number? at h
  extract_lets digits at h
  split at h
  · cases h
  · exact of_decide_eq_true (Option.filter_eq_some_iff.1 h).2

/-- A field is filled with what is given. -/
lemma Draft.eq_of_fill {α : Type} {given value filled : Option α}
    (h : fill given value = some filled) : filled = value := by
  unfold fill at h
  split at h <;> cases h
  rfl

/-- What can become of a draft while arguments are read: options are given a value, or the padding
is turned off. -/
inductive Draft.Becomes (start : Draft) : Draft → Prop where
  | same : Becomes start start
  | set {draft draft' : Draft} {field : Field} {value : String} :
    Becomes start draft → draft.set? field value = some draft' → Becomes start draft'
  | noPadding {draft : Draft} :
    Becomes start draft → Becomes start { draft with noPadding := true }

/-- A length of pieces comes from a number that was read. -/
lemma Draft.Becomes.chunkSize_le {draft : Draft} {n : Nat} (h : Becomes {} draft)
    (hn : draft.chunkSize = some n) : n ≤ Word.max64 := by
  induction h with
  | same => cases hn
  | @set draft draft' field value _ hset ih =>
    cases field with
    | chunkSize =>
      obtain ⟨filled, hfill, rfl⟩ := Option.map_eq_some_iff.1 hset
      exact number?_le ((eq_of_fill hfill).symm.trans hn)
    | _ =>
      obtain ⟨_, -, rfl⟩ := Option.map_eq_some_iff.1 hset
      exact ih hn
  | noPadding _ ih => exact ih hn

namespace Reader

variable {start : Draft} {r r' : Reader}

/-- Giving a value to a field goes on with the draft. -/
lemma becomes_give {field : Field} {value : List Char} (hr : start.Becomes r.draft)
    (h : r.give field value = .ok r') : start.Becomes r'.draft := by
  rw [give] at h
  split at h
  · cases h
  · rename_i draft hset
    cases h
    exact hr.set hset

/-- Turning on a switch goes on with the draft. -/
lemma becomes_turnOn {switch : Switch} (hr : start.Becomes r.draft) (h : r.turnOn switch = .ok r') :
    start.Becomes r'.draft := by
  cases switch with
  | help => cases h
  | version => cases h
  | noPadding =>
    rw [turnOn] at h
    split at h <;> cases h
    exact hr.noPadding

/-- A long option goes on with the draft. -/
lemma becomes_readLong {text : List Char} (hr : start.Becomes r.draft)
    (h : r.readLong text = .ok r') : start.Becomes r'.draft := by
  rw [readLong] at h
  split at h
  · exact becomes_give hr h
  · cases h
    exact hr
  · exact becomes_turnOn hr h
  · cases h

/-- A group of short options goes on with the draft. -/
lemma becomes_readShort {text : List Char} (hr : start.Becomes r.draft)
    (h : r.readShort text = .ok r') : start.Becomes r'.draft := by
  induction text generalizing r with
  | nil => cases h; exact hr
  | cons c rest ih =>
    unfold readShort at h
    split at h
    · cases h
      exact hr
    · exact becomes_give hr h
    · exact becomes_give hr h
    · split at h
      · cases h
      · rename_i hon
        exact ih (becomes_turnOn hr hon) h
    · cases h

/-- Reading an argument gives options a value, turns the padding off, or leaves all as it is. -/
lemma becomes_read {argument : String} (hr : start.Becomes r.draft) (h : r.read argument = .ok r') :
    start.Becomes r'.draft := by
  rw [read] at h
  split at h
  · cases h
  · split at h
    · cases h
      exact hr
    · exact becomes_readLong hr h
    · exact becomes_readShort hr h
    · cases h
    · exact becomes_give hr h
    · cases h

/-- By induction over the arguments, so do all of them. -/
lemma becomes_readAll {arguments : List String} (hr : start.Becomes r.draft)
    (h : arguments.foldlM read r = .ok r') : start.Becomes r'.draft := by
  induction arguments generalizing r with
  | nil => cases h; exact hr
  | cons argument arguments ih =>
    rw [List.foldlM_cons] at h
    obtain ⟨next, hnext, hrest⟩ := bind_eq_ok_iff.1 h
    exact ih (becomes_read hr hnext) hrest

end Reader

/-- The options take the length of the pieces from the draft. -/
lemma chunkSize_of_options? {draft : Draft} {o : Options} (h : draft.options? = some o) :
    o.chunkSize = draft.chunkSize := by
  rw [Draft.options?] at h
  split at h
  · split at h <;> cases h
    rfl
  · cases h

/-- Whatever the arguments are, the length of the pieces fits into a machine word. -/
lemma chunkSize_le {arguments : List String} {o : Options} {n : Nat}
    (ho : ofArguments arguments = .ok o) (hn : o.chunkSize = some n) : n ≤ Word.max64 := by
  rw [ofArguments] at ho
  split at ho
  · cases ho
  · rename_i r hr
    split at ho
    · rename_i options _ hoptions
      cases ho
      have hdraft : Draft.Becomes {} r.draft := Reader.becomes_readAll .same hr
      exact hdraft.chunkSize_le ((chunkSize_of_options? hoptions).symm.trans hn)
    · cases ho

end SymmetricCipher.Options
