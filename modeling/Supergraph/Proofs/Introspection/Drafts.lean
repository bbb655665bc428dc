import Supergraph.Proofs.Files.Trees
import Supergraph.Proofs.Introspection.DiskSteps

/-!
# Writers of one directory

Any number of writers and readers use one directory. They take turns in any order, each turn is one
step, and a reader reads in one step.

**Theorem (`reads_complete`).** As long as no two writers of a fingerprint have its draft at once,
every text that is read for it is one that a writer was given for it, or the one that was there from
the start. Writers of other fingerprints make no difference, whatever they do.

The condition is needed: the draft has one name per fingerprint, so a second writer empties the very
file that the first is about to move (`reads_torn`).

**Proof.** An invariant (`Sound`) says what the draft holds while a writer has it: nothing until it
is filled, and all of the text from then on. A turn has one of five effects on the files, and each
keeps the invariant (`Sound.turn`). The other writers hold other files, and never those of this
fingerprint (`Effect.confined`).
-/

namespace Supergraph.DiskCache

open Files

variable {cache : DiskCache} {fingerprint other : Fingerprint} {home : Place} {files files' : Files}

/-! ## Turns -/

/-- A text to be written for a fingerprint. -/
structure Writing where
  fingerprint : Fingerprint
  text : String
  digest : fingerprint.IsDigest

/-- A directory in use: the files, the writers with what they write and how far they have come, and
what was read so far. -/
structure Shared where
  files : Files
  writers : List (Writing × Writer)
  answers : List (Fingerprint × Except FileError (Option String))

/-- Who does something next. -/
inductive Turn where
  | write (writer : Nat)
  | read (fingerprint : Fingerprint)

namespace Shared

/-- Writers that have not begun. -/
def start (files : Files) (writings : List Writing) : Shared :=
  ⟨files, writings.map (·, .makeDirectory), []⟩

/-- One step of a writer, or one read. A writer that fails is done. -/
def turn (cache : DiskCache) (s : Shared) : Turn → Shared
  | .write n =>
    match s.writers[n]? with
    | none => s
    | some (writing, writer) =>
      let outcome := perform (writer.step cache writing.fingerprint writing.text).run s.files
      { s with files := outcome.2, writers := s.writers.set n (writing, .after outcome.1) }
  | .read fingerprint =>
    let outcome := perform (cache.read fingerprint).run s.files
    { s with files := outcome.2, answers := s.answers ++ [(fingerprint, outcome.1)] }

/-- Some turns, one after the other. -/
def run (cache : DiskCache) (s : Shared) (turns : List Turn) : Shared :=
  turns.foldl (turn cache) s

/-- The texts that were read for a fingerprint. -/
def texts (s : Shared) (fingerprint : Fingerprint) : List String :=
  s.answers.filterMap fun
    | (asked, .ok (some text)) => if asked = fingerprint then some text else none
    | _ => none

theorem mem_texts {s : Shared} {text : String} :
    text ∈ s.texts fingerprint ↔ (fingerprint, .ok (some text)) ∈ s.answers := by
  rw [texts, List.mem_filterMap]
  constructor
  · rintro ⟨⟨asked, _ | _ | found⟩, hmem, hfound⟩
    · cases hfound
    · cases hfound
    · obtain ⟨rfl, hsome⟩ := Option.ite_none_right_eq_some.1 hfound
      exact Option.some.inj hsome ▸ hmem
  · exact fun hmem => ⟨_, hmem, if_pos rfl⟩

end Shared

/-- Whether a writer has created its draft and not yet moved it. -/
def Writer.hasDraft : Writer → Bool
  | .fill _ | .rename => true
  | .makeDirectory | .create | .done => false

/-- Whether a writer has the draft of a fingerprint. -/
def Shared.HasDraft (s : Shared) (fingerprint : Fingerprint) (n : Nat) : Prop :=
  ∃ w, s.writers[n]? = some w ∧ w.1.fingerprint = fingerprint ∧ w.2.hasDraft = true

/-- Whether at most one writer has the draft of a fingerprint. -/
def Shared.Exclusive (s : Shared) (fingerprint : Fingerprint) : Prop :=
  ∀ m n, s.HasDraft fingerprint m → s.HasDraft fingerprint n → m = n

/-! ## Files with one name each -/

/-- Every file that has a name is there, and has no other name. -/
structure Separate (files : Files) : Prop where
  inRange : ∀ place handle, files.entry? place = some (.file handle) →
    handle < files.contents.length
  oneName : ∀ place place' handle, files.entry? place = some (.file handle) →
    files.entry? place' = some (.file handle) → place = place'

/-- Directories without files have no name twice. -/
theorem separate_ofHome (home : Place) : Separate (.ofHome home) := by
  have hfile : ∀ place handle, entry? (.ofHome home) place ≠ some (.file handle) := by
    intro place handle h
    rw [entry?_ofHome] at h
    split at h <;> cases h
  exact ⟨fun place handle h => absurd h (hfile place handle),
    fun place _ handle h => absurd h (hfile place handle)⟩

/-- A place holds the same file with the same content, if it holds one. -/
structure Keeps (place : Place) (files files' : Files) : Prop where
  file : ∀ handle, files'.entry? place = some (.file handle) ↔
    files.entry? place = some (.file handle)
  content : ∀ handle, files.entry? place = some (.file handle) →
    files'.content handle = files.content handle

theorem keeps_of_grows (h : Grows files files') (place : Place) : Keeps place files files' :=
  ⟨fun _ => h.file_iff, fun handle _ => h.content handle⟩

theorem keeps_truncate (h : Separate files) {place draft : Place} {handle : Handle}
    (hdraft : files.entry? draft = some (.file handle)) (hplace : place ≠ draft) :
    Keeps place files (files.truncate handle) where
  file _ := .rfl
  content other hother := by
    have hne : other ≠ handle := by
      rintro rfl
      exact hplace (h.oneName _ _ _ hother hdraft)
    rw [content_truncate, if_neg hne]

theorem keeps_fill {place : Place} {handle : Handle}
    (hplace : files.entry? place ≠ some (.file handle)) (bytes : ByteArray) :
    Keeps place files (files.fill handle bytes) where
  file _ := .rfl
  content other hother := content_fill_ne (by
    rintro rfl
    exact hplace hother) bytes

theorem entry?_fresh {draft : Place} (hroot : draft ≠ []) (place : Place) :
    entry? (files.fresh draft) place =
      if place = draft then some (.file files.contents.length) else files.entry? place :=
  entry?_put hroot _ place

theorem keeps_fresh (h : Separate files) {place draft : Place} (hroot : draft ≠ [])
    (hplace : place ≠ draft) : Keeps place files (files.fresh draft) where
  file _ := by rw [entry?_fresh hroot, if_neg hplace]
  content _ hother := content_fresh draft (h.inRange _ _ hother)

theorem entry?_move {origin target : Place} (horigin : origin ≠ []) (htarget : target ≠ [])
    (entry : Entry) (place : Place) :
    entry? ((files.erase origin).put target entry) place =
      if place = target then some entry
      else if place = origin then none else files.entry? place := by
  rw [entry?_put htarget, entry?_erase horigin]

theorem keeps_move {place origin target : Place} (horigin : origin ≠ []) (htarget : target ≠ [])
    (entry : Entry) (hne : place ≠ origin) (hne' : place ≠ target) :
    Keeps place files ((files.erase origin).put target entry) where
  file _ := by rw [entry?_move horigin htarget, if_neg hne', if_neg hne]
  content _ _ := rfl

/-! ## Effects -/

namespace Effect

variable {text : String} {writer next : Writer}

theorem home_eq (h : Effect cache fingerprint text files writer next files') :
    files'.home = files.home := by
  cases h with
  | grows hgrows => exact hgrows.home
  | truncates | makes | fills | moves => rfl

theorem length_le (h : Effect cache fingerprint text files writer next files') :
    files.contents.length ≤ files'.contents.length := by
  cases h with
  | grows hgrows => exact hgrows.contents ▸ Nat.le_refl _
  | makes => simp [fresh]
  | truncates | fills => simp [truncate, fill]
  | moves => exact Nat.le_refl _

theorem separate (hfiles : Separate files)
    (h : Effect cache fingerprint text files writer next files') : Separate files' := by
  have hlength := h.length_le
  have hdraft := draftPlace_ne_root cache files.home fingerprint
  have hentry := entryPlace_ne_root cache files.home fingerprint
  cases h with
  | grows hgrows =>
    refine ⟨fun _ _ hplace => ?_, fun _ _ _ hplace hplace' => ?_⟩
    · exact hgrows.contents ▸ hfiles.inRange _ _ (hgrows.file_iff.1 hplace)
    · exact hfiles.oneName _ _ _ (hgrows.file_iff.1 hplace) (hgrows.file_iff.1 hplace')
  | truncates | fills =>
    exact ⟨fun _ _ hplace => Nat.lt_of_lt_of_le (hfiles.inRange _ _ hplace) hlength, hfiles.oneName⟩
  | makes hnone =>
    obtain ⟨hlt, hone⟩ := hfiles
    have hcontents : (files.fresh (cache.draftPlace files.home fingerprint)).contents.length =
      files.contents.length + 1 := by simp [fresh]
    refine ⟨fun _ _ hplace => ?_, fun _ _ _ hplace hplace' => ?_⟩
    · rw [entry?_fresh hdraft] at hplace
      grind
    · -- The new handle is out of range of the old ones, so it has no other name.
      rw [entry?_fresh hdraft] at hplace hplace'
      grind
  | moves hsome =>
    obtain ⟨hlt, hone⟩ := hfiles
    refine ⟨fun _ _ hplace => ?_, fun _ _ _ hplace hplace' => ?_⟩
    · rw [entry?_move hdraft hentry] at hplace
      show _ < files.contents.length
      grind
    · rw [entry?_move hdraft hentry] at hplace hplace'
      grind

/-- The file at a place stays what it is, unless it is the draft or the entry of the writer, or the
file that the writer fills. -/
theorem keeps (hfiles : Separate files)
    (h : Effect cache fingerprint text files writer next files') {place : Place}
    (hdraft : place ≠ cache.draftPlace files.home fingerprint)
    (hentry : place ≠ cache.entryPlace files.home fingerprint)
    (hfill : ∀ handle, writer = .fill handle → files.entry? place ≠ some (.file handle)) :
    Keeps place files files' := by
  cases h with
  | grows hgrows => exact keeps_of_grows hgrows place
  | truncates hsome => exact keeps_truncate hfiles hsome hdraft
  | makes => exact keeps_fresh hfiles (draftPlace_ne_root _ _ _) hdraft
  | fills => exact keeps_fill (hfill _ rfl) _
  | moves => exact keeps_move (draftPlace_ne_root _ _ _) (entryPlace_ne_root _ _ _) _ hdraft hentry

end Effect

/-! ## Files of a fingerprint -/

/-- Whether a file is the entry of a fingerprint or its draft. -/
def BelongsTo (cache : DiskCache) (fingerprint : Fingerprint) (files : Files) (handle : Handle) :
    Prop :=
  files.entry? (cache.entryPlace files.home fingerprint) = some (.file handle) ∨
    files.entry? (cache.draftPlace files.home fingerprint) = some (.file handle)

namespace Effect

variable {text : String} {writer next : Writer} {handle : Handle}

/-- A file that is there comes to belong to a fingerprint in no step. -/
theorem confined (h : Effect cache other text files writer next files')
    (hlt : handle < files.contents.length) (hbelongs : BelongsTo cache fingerprint files' handle) :
    BelongsTo cache fingerprint files handle := by
  have hdraft := draftPlace_ne_root cache files.home other
  have hentry := entryPlace_ne_root cache files.home other
  rw [BelongsTo, h.home_eq] at hbelongs
  -- Only a move gives an entry a file, and then the one that the draft beside it had.
  cases h with
  | grows hgrows => exact hbelongs.imp hgrows.file_iff.1 hgrows.file_iff.1
  | truncates | fills => exact hbelongs
  | makes =>
    rw [entry?_fresh hdraft, entry?_fresh hdraft] at hbelongs
    grind [BelongsTo]
  | moves hsome =>
    have hmoved := entryPlace_ne_draftPlace cache files.home other fingerprint
    have hdrafts := (draftPlace_injective cache files.home).eq_iff (a := fingerprint) (b := other)
    have hentries := (entryPlace_injective cache files.home).eq_iff (a := fingerprint) (b := other)
    rw [entry?_move hdraft hentry, entry?_move hdraft hentry] at hbelongs
    grind [BelongsTo]

/-- What a writer of another fingerprint creates does not belong to this one. -/
theorem apart (hfiles : Separate files) (hother : other ≠ fingerprint)
    (h : Effect cache other text files writer (.fill handle) files') :
    handle < files'.contents.length ∧ ¬ BelongsTo cache fingerprint files' handle := by
  have hlength := h.length_le
  have hhome := h.home_eq
  have hdraft := draftPlace_ne_root cache files.home other
  have hmixed := entryPlace_ne_draftPlace cache files.home fingerprint other
  have hdrafts := (draftPlace_injective cache files.home).eq_iff (a := other) (b := fingerprint)
  obtain ⟨hlt, hone⟩ := hfiles
  cases h with
  | grows hgrows hnext => rcases hnext with hnext | hnext <;> cases hnext
  | truncates hsome =>
    refine ⟨Nat.lt_of_lt_of_le (hlt _ _ hsome) hlength, fun hbelongs => ?_⟩
    rcases hbelongs with hentry | hdraft'
    · exact hmixed (hone _ _ _ hentry hsome)
    · exact hother (hdrafts.1 (hone _ _ _ hsome hdraft'))
  | makes =>
    refine ⟨by simp [fresh], fun hbelongs => ?_⟩
    rw [BelongsTo, hhome, entry?_fresh hdraft, entry?_fresh hdraft] at hbelongs
    grind

end Effect

/-! ## What a draft holds -/

/-- What the draft holds while a writer has it: nothing before it is filled, and all of the text
afterwards. -/
def Backed (draft : Place) (files : Files) (text : String) : Writer → Prop
  | .fill handle =>
    files.entry? draft = some (.file handle) ∧ files.content handle = ByteArray.empty
  | .rename => ∀ handle, files.entry? draft = some (.file handle) →
    files.content handle = text.toByteArray
  | .makeDirectory | .create | .done => True

theorem backed_of_hasDraft {draft : Place} {text : String} {writer : Writer}
    (h : writer.hasDraft = false) : Backed draft files text writer := by
  cases writer with
  | fill | rename => cases h
  | makeDirectory | create | done => trivial

theorem Backed.keeps {draft : Place} {text : String} {writer : Writer}
    (hkeeps : Keeps draft files files') (h : Backed draft files text writer) :
    Backed draft files' text writer := by
  cases writer with
  | fill handle =>
    exact ⟨(hkeeps.file handle).2 h.1, (hkeeps.content handle h.1).trans h.2⟩
  | rename =>
    intro handle hdraft
    have hbefore := (hkeeps.file handle).1 hdraft
    exact (hkeeps.content handle hbefore).trans (h handle hbefore)
  | makeDirectory | create | done => trivial

namespace Effect

variable {text : String} {writer next : Writer}

/-- A step of the writer itself. -/
theorem backed (hfiles : Separate files)
    (h : Effect cache fingerprint text files writer next files')
    (hbacked : Backed (cache.draftPlace files.home fingerprint) files text writer) :
    Backed (cache.draftPlace files.home fingerprint) files' text next := by
  cases h with
  | grows hgrows hnext => rcases hnext with rfl | rfl <;> trivial
  | truncates hsome => exact ⟨hsome, by rw [content_truncate, if_pos rfl]⟩
  | makes =>
    exact ⟨by rw [entry?_fresh (draftPlace_ne_root _ _ _), if_pos rfl], content_fresh_self _⟩
  | @fills handle =>
    intro handle' hdraft
    obtain ⟨hsome, hempty⟩ := hbacked
    obtain rfl : handle = handle' :=
      Entry.file.inj (Option.some.inj (hsome.symm.trans hdraft))
    exact content_fill_self (hfiles.inRange _ _ hsome) hempty _
  | moves => trivial

/-- A step of another writer of the fingerprint, which does not have the draft. -/
theorem keeps_of_hasDraft (h : Effect cache fingerprint text files writer next files')
    (hbefore : writer.hasDraft = false) (hafter : next.hasDraft = false) (place : Place) :
    Keeps place files files' := by
  cases h with
  | grows hgrows => exact keeps_of_grows hgrows place
  | truncates | makes => cases hafter
  | fills | moves => cases hbefore

end Effect

/-! ## The invariant -/

/-- What holds of a fingerprint at any time, where `Complete` says which contents its entry may
have. -/
structure Sound (cache : DiskCache) (fingerprint : Fingerprint) (home : Place)
    (Complete : ByteArray → Prop) (s : Shared) : Prop where
  home_eq : s.files.home = home
  separate : Separate s.files
  entry : ∀ handle, s.files.entry? (cache.entryPlace home fingerprint) = some (.file handle) →
    Complete (s.files.content handle)
  given : ∀ (n : Nat) (writing : Writing) (writer : Writer),
    s.writers[n]? = some (writing, writer) → writing.fingerprint = fingerprint →
      Complete writing.text.toByteArray
  own : ∀ (n : Nat) (writing : Writing) (writer : Writer),
    s.writers[n]? = some (writing, writer) → writing.fingerprint = fingerprint →
      Backed (cache.draftPlace home fingerprint) s.files writing.text writer
  others : ∀ (n : Nat) (writing : Writing) (handle : Handle),
    s.writers[n]? = some (writing, .fill handle) → writing.fingerprint ≠ fingerprint →
      handle < s.files.contents.length ∧ ¬ BelongsTo cache fingerprint s.files handle
  answers : ∀ text, (fingerprint, .ok (some text)) ∈ s.answers → Complete text.toByteArray

namespace Sound

variable {Complete : ByteArray → Prop} {s : Shared} {n : Nat} {writing : Writing}
  {writer next : Writer}

theorem entry_of_keeps (h : Sound cache fingerprint home Complete s)
    (hkeeps : Keeps (cache.entryPlace home fingerprint) s.files files') {handle : Handle}
    (hentry : files'.entry? (cache.entryPlace home fingerprint) = some (.file handle)) :
    Complete (files'.content handle) := by
  have hbefore := (hkeeps.file handle).1 hentry
  rw [hkeeps.content handle hbefore]
  exact h.entry handle hbefore

theorem eq_of_set_self {writers : List (Writing × Writer)} {one : Writing × Writer}
    {writing' : Writing} {writer' : Writer} (hn : writers[n]? = some one)
    (h : (writers.set n (writing, next))[n]? = some (writing', writer')) :
    writing = writing' ∧ next = writer' := by
  have hlt : n < writers.length := (List.getElem?_eq_some_iff.1 hn).1
  rw [List.getElem?_set_self hlt] at h
  exact Prod.mk.inj (Option.some.inj h)

/-- A step of a writer of another fingerprint. -/
theorem keeps_of_other (h : Sound cache fingerprint home Complete s)
    (hn : s.writers[n]? = some (writing, writer)) (hother : writing.fingerprint ≠ fingerprint)
    (heffect : Effect cache writing.fingerprint writing.text s.files writer next files') :
    Keeps (cache.entryPlace home fingerprint) s.files files' ∧
      Keeps (cache.draftPlace home fingerprint) s.files files' := by
  obtain rfl := h.home_eq
  have hfill : ∀ handle, writer = .fill handle →
      ¬ BelongsTo cache fingerprint s.files handle := by
    rintro handle rfl
    exact (h.others n writing handle hn hother).2
  constructor
  · exact heffect.keeps h.separate (entryPlace_ne_draftPlace _ _ _ _)
      (fun heq => hother (entryPlace_injective _ _ heq).symm)
      fun handle hwriter hentry => hfill handle hwriter (.inl hentry)
  · exact heffect.keeps h.separate (fun heq => hother (draftPlace_injective _ _ heq).symm)
      (Ne.symm (entryPlace_ne_draftPlace _ _ _ _))
      fun handle hwriter hdraft => hfill handle hwriter (.inr hdraft)

theorem entry_step (h : Sound cache fingerprint home Complete s)
    (hn : s.writers[n]? = some (writing, writer))
    (heffect : Effect cache writing.fingerprint writing.text s.files writer next files')
    {handle : Handle}
    (hentry : files'.entry? (cache.entryPlace home fingerprint) = some (.file handle)) :
    Complete (files'.content handle) := by
  by_cases hown : writing.fingerprint = fingerprint
  · have hbacked := h.own n writing writer hn hown
    obtain rfl := h.home_eq
    subst hown
    have hne := entryPlace_ne_draftPlace cache s.files.home writing.fingerprint
      writing.fingerprint
    cases heffect with
    | grows hgrows => exact h.entry_of_keeps (keeps_of_grows hgrows _) hentry
    | truncates hsome => exact h.entry_of_keeps (keeps_truncate h.separate hsome hne) hentry
    | makes => exact h.entry_of_keeps (keeps_fresh h.separate (draftPlace_ne_root _ _ _) hne) hentry
    | fills =>
      refine h.entry_of_keeps (keeps_fill (fun hsame => ?_) _) hentry
      exact hne (h.separate.oneName _ _ _ hsame hbacked.1)
    -- The one step that changes the entry. The draft is filled by then.
    | moves hsome =>
      rw [entry?_move (draftPlace_ne_root _ _ _) (entryPlace_ne_root _ _ _), if_pos rfl] at hentry
      have hcontent := hbacked handle (hsome.trans hentry)
      show Complete (s.files.content handle)
      rw [hcontent]
      exact h.given n writing _ hn rfl
  · exact h.entry_of_keeps (h.keeps_of_other hn hown heffect).1 hentry

/-- A step of one writer leaves alone the draft that another writer of the fingerprint has. -/
theorem own_of_ne (h : Sound cache fingerprint home Complete s)
    (hn : s.writers[n]? = some (writing, writer))
    (heffect : Effect cache writing.fingerprint writing.text s.files writer next files')
    (hbefore : s.Exclusive fingerprint)
    (hafter : Shared.Exclusive ⟨files', s.writers.set n (writing, next), s.answers⟩ fingerprint)
    {m : Nat} {writing' : Writing} {writer' : Writer} (hne : m ≠ n)
    (hm : s.writers[m]? = some (writing', writer')) (hown : writing'.fingerprint = fingerprint) :
    Backed (cache.draftPlace home fingerprint) files' writing'.text writer' := by
  have hbacked := h.own m writing' writer' hm hown
  by_cases hsame : writing.fingerprint = fingerprint
  -- Two writers of the fingerprint: if one has the draft, the other neither had it nor gets it.
  · by_cases hdraft : writer'.hasDraft = true
    · have hwriter : writer.hasDraft = false := Bool.eq_false_iff.2 fun hwriter =>
        hne (hbefore m n ⟨_, hm, hown, hdraft⟩ ⟨_, hn, hsame, hwriter⟩)
      have hnext : next.hasDraft = false := Bool.eq_false_iff.2 fun hnext => by
        refine hne (hafter m n ⟨(writing', writer'), ?_, hown, hdraft⟩
          ⟨(writing, next), ?_, hsame, hnext⟩)
        · exact (List.getElem?_set_ne hne.symm).trans hm
        · exact List.getElem?_set_self (List.getElem?_eq_some_iff.1 hn).1
      exact hbacked.keeps (heffect.keeps_of_hasDraft hwriter hnext _)
    · exact backed_of_hasDraft (Bool.eq_false_iff.2 hdraft)
  · exact hbacked.keeps (h.keeps_of_other hn hsame heffect).2

/-- A writer makes a step. -/
theorem write (h : Sound cache fingerprint home Complete s)
    (hn : s.writers[n]? = some (writing, writer))
    (heffect : Effect cache writing.fingerprint writing.text s.files writer next files')
    (hbefore : s.Exclusive fingerprint)
    (hafter : Shared.Exclusive ⟨files', s.writers.set n (writing, next), s.answers⟩ fingerprint) :
    Sound cache fingerprint home Complete
      ⟨files', s.writers.set n (writing, next), s.answers⟩ where
  home_eq := heffect.home_eq.trans h.home_eq
  separate := heffect.separate h.separate
  entry _ := h.entry_step hn heffect
  given m writing' writer' hm hown := by
    by_cases hmn : m = n
    · subst hmn
      obtain ⟨rfl, -⟩ := eq_of_set_self hn hm
      exact h.given m writing writer hn hown
    · exact h.given m writing' writer' ((List.getElem?_set_ne (Ne.symm hmn)).symm.trans hm) hown
  own m writing' writer' hm hown := by
    by_cases hmn : m = n
    · subst hmn
      obtain ⟨rfl, rfl⟩ := eq_of_set_self hn hm
      obtain rfl := h.home_eq
      subst hown
      exact heffect.backed h.separate (h.own m writing writer hn rfl)
    · exact h.own_of_ne hn heffect hbefore hafter hmn
        ((List.getElem?_set_ne (Ne.symm hmn)).symm.trans hm) hown
  others m writing' handle hm hother := by
    by_cases hmn : m = n
    · subst hmn
      obtain ⟨rfl, rfl⟩ := eq_of_set_self hn hm
      exact heffect.apart h.separate hother
    · obtain ⟨hlt, hfree⟩ := h.others m writing' handle
        ((List.getElem?_set_ne (Ne.symm hmn)).symm.trans hm) hother
      exact ⟨Nat.lt_of_lt_of_le hlt heffect.length_le, fun hb => hfree (heffect.confined hlt hb)⟩
  answers := h.answers

/-- **A turn keeps the invariant** where at most one writer has the draft before and after it. -/
theorem turn (hdigest : fingerprint.IsDigest) (h : Sound cache fingerprint home Complete s)
    (t : Turn) (hbefore : s.Exclusive fingerprint)
    (hafter : (s.turn cache t).Exclusive fingerprint) :
    Sound cache fingerprint home Complete (s.turn cache t) := by
  cases t with
  | write n =>
    rcases hn : s.writers[n]? with _ | ⟨writing, writer⟩
    · rw [Shared.turn, hn]
      exact h
    · rw [Shared.turn, hn] at hafter ⊢
      exact h.write hn (effect_step writing.digest _ _ _) hbefore hafter
  | read asked =>
    -- Reading changes no file, so only the answers are one more.
    have hfiles : (perform (cache.read asked).run s.files).2 = s.files := by
      rw [perform_read]
    have hturn : s.turn cache (.read asked) = ⟨s.files, s.writers,
        s.answers ++ [(asked, (perform (cache.read asked).run s.files).1)]⟩ := by
      rw [Shared.turn, hfiles]
    rw [hturn]
    refine { h with answers := fun text htext => ?_ }
    rcases List.mem_append.1 htext with hold | hnew
    · exact h.answers text hold
    · obtain ⟨rfl, hread⟩ := Prod.mk.inj (List.mem_singleton.1 hnew)
      obtain ⟨handle, hentry, hcontent⟩ := holds_of_read hdigest hread.symm
      rw [h.home_eq] at hentry
      exact hcontent ▸ h.entry handle hentry

theorem run (hdigest : fingerprint.IsDigest) (turns : List Turn)
    (h : Sound cache fingerprint home Complete s)
    (hexclusive : ∀ before, before <+: turns → (s.run cache before).Exclusive fingerprint) :
    Sound cache fingerprint home Complete (s.run cache turns) := by
  -- By induction on the turns, since every prefix of the run is exclusive.
  induction turns generalizing s with
  | nil => exact h
  | cons t rest ih =>
    have hturn := h.turn hdigest t (hexclusive [] List.nil_prefix)
      (hexclusive [t] (List.prefix_append [t] rest))
    exact ih hturn fun before hbefore =>
      hexclusive (t :: before) (List.cons_prefix_cons.2 ⟨rfl, hbefore⟩)

end Sound

/-! ## Reads -/

/-- Whether a content is one that was given for a fingerprint, or the one of its entry. -/
def Complete (cache : DiskCache) (fingerprint : Fingerprint) (files : Files)
    (writings : List Writing) (content : ByteArray) : Prop :=
  (∃ writing ∈ writings, writing.fingerprint = fingerprint ∧
      writing.text.toByteArray = content) ∨
    ∃ handle, files.entry? (cache.entryPlace files.home fingerprint) = some (.file handle) ∧
      files.content handle = content

theorem sound_start (hfiles : Separate files) (writings : List Writing) :
    Sound cache fingerprint files.home (Complete cache fingerprint files writings)
      (.start files writings) := by
  have hbegins {n : Nat} {writing : Writing} {writer : Writer}
      (hn : (Shared.start files writings).writers[n]? = some (writing, writer)) :
      writing ∈ writings ∧ writer = .makeDirectory := by
    obtain ⟨one, hone, heq⟩ := List.mem_map.1 (List.mem_of_getElem? hn)
    obtain ⟨rfl, rfl⟩ := Prod.mk.inj heq
    exact ⟨hone, rfl⟩
  exact {
    home_eq := rfl
    separate := hfiles
    entry := fun handle hentry => .inr ⟨handle, hentry, rfl⟩
    given := fun n writing writer hn hown => .inl ⟨writing, (hbegins hn).1, hown, rfl⟩
    own := fun n writing writer hn _ => backed_of_hasDraft (by rw [(hbegins hn).2]; rfl)
    others := fun n writing handle hn _ => nomatch (hbegins hn).2
    answers := fun text h => nomatch h }

theorem writings_turn (s : Shared) (t : Turn) :
    (s.turn cache t).writers.map (·.1) = s.writers.map (·.1) := by
  cases t with
  | write n =>
    rcases hn : s.writers[n]? with _ | ⟨writing, writer⟩
    · rw [Shared.turn, hn]
    · have hget : (s.writers.map (·.1))[n]? = some writing := by simp [hn]
      obtain ⟨hlt, hsame⟩ := List.getElem?_eq_some_iff.1 hget
      rw [Shared.turn, hn, List.map_set, ← hsame]
      exact List.set_getElem_self hlt
  | read => rfl

theorem writings_run (s : Shared) (turns : List Turn) :
    (s.run cache turns).writers.map (·.1) = s.writers.map (·.1) := by
  induction turns generalizing s with
  | nil => rfl
  | cons t rest ih => exact (ih (s.turn cache t)).trans (writings_turn s t)

/-- Writers of different fingerprints never have the same draft. -/
theorem exclusive_of_nodup {writings : List Writing}
    (h : (writings.map (·.fingerprint)).Nodup) (turns : List Turn) :
    ((Shared.start files writings).run cache turns).Exclusive fingerprint := by
  have hwritings :
      ((Shared.start files writings).run cache turns).writers.map (·.1) = writings := by
    rw [writings_run, Shared.start, List.map_map]
    exact List.map_id writings
  have howner {n : Nat}
      (hn : ((Shared.start files writings).run cache turns).HasDraft fingerprint n) :
      (writings.map (·.fingerprint))[n]? = some fingerprint := by
    obtain ⟨one, hone, hown, -⟩ := hn
    rw [← hwritings, List.getElem?_map, List.getElem?_map, hone, ← hown]
    rfl
  intro m n hm hn
  have hlt := (List.getElem?_eq_some_iff.1 (howner hm)).1
  exact (List.getElem?_inj hlt h).1 ((howner hm).trans (howner hn).symm)

/-- **What is read is complete** as long as no two writers of a fingerprint have its draft at once:
it is a text that a writer was given for the fingerprint, or the one of the entry at the start. -/
theorem reads_complete (cache : DiskCache) (hdigest : fingerprint.IsDigest)
    (hfiles : Separate files) (writings : List Writing) (turns : List Turn)
    (hexclusive : ∀ before, before <+: turns →
      ((Shared.start files writings).run cache before).Exclusive fingerprint)
    {text : String}
    (hread : text ∈ ((Shared.start files writings).run cache turns).texts fingerprint) :
    (∃ writing ∈ writings, writing.fingerprint = fingerprint ∧ writing.text = text) ∨
      Holds files (cache.entryPlace files.home fingerprint) text := by
  have hsound := (sound_start hfiles writings).run hdigest turns hexclusive
  rcases hsound.answers text (Shared.mem_texts.1 hread) with
    ⟨writing, hmem, hown, htext⟩ | ⟨handle, hentry, hcontent⟩
  · exact .inl ⟨writing, hmem, hown, String.toByteArray_inj.1 htext⟩
  · exact .inr ⟨handle, hentry, hcontent⟩

/-! ## Two writers -/

/-- The fingerprint of a server of users. -/
def users : Fingerprint := ⟨"92719f100d046a57f1a93249e870b31cd851346ac4f8439a8247ac7b6f723448"⟩

theorem users_isDigest : users.IsDigest :=
  ⟨"graphql", GraphQLBackend.codec.encode (.ofUrl "http://users"), by decide +kernel⟩

/-- The fingerprint of a server of orders. -/
def orders : Fingerprint := ⟨"0f42f08c04df63ddbc490315f56ef82eb93748e0929892ce1cd6d3234669ee61"⟩

theorem orders_isDigest : orders.IsDigest :=
  ⟨"graphql", GraphQLBackend.codec.encode (.ofUrl "http://orders"), by decide +kernel⟩

/-- Two fingerprints are written and read at once. -/
theorem reads_complete_users :
    let writings : List Writing :=
      [⟨users, "[1]", users_isDigest⟩, ⟨orders, "[2]", orders_isDigest⟩]
    let turns : List Turn := [.write 0, .write 1, .write 0, .write 1, .write 1, .write 0,
      .read users, .write 1, .write 0, .read users]
    ((Shared.start (.ofHome []) writings).run ⟨"cache"⟩ turns).texts users = ["[1]"] ∧
      ((∃ writing ∈ writings, writing.fingerprint = users ∧ writing.text = "[1]") ∨
        Holds (.ofHome []) (entryPlace ⟨"cache"⟩ [] users) "[1]") := by
  intro writings turns
  have htexts :
      ((Shared.start (.ofHome []) writings).run ⟨"cache"⟩ turns).texts users = ["[1]"] := by
    decide +kernel
  refine ⟨htexts, reads_complete ⟨"cache"⟩ users_isDigest (separate_ofHome []) writings turns
    (fun before _ => exclusive_of_nodup (by decide) before) ?_⟩
  rw [htexts]
  exact List.mem_singleton_self _

/-- Two writers of one fingerprint have its draft at once: the second empties the file that the
first has filled, and the first moves it. What is read then was given to neither. -/
theorem reads_torn :
    let writings : List Writing := [⟨users, "[1]", users_isDigest⟩, ⟨users, "[2]", users_isDigest⟩]
    let turns : List Turn := [.write 0, .write 0, .write 0, .write 1, .write 1, .write 0,
      .read users]
    ((Shared.start (.ofHome []) writings).run ⟨"cache"⟩ turns).texts users = [""] ∧
      ∀ writing ∈ writings, writing.text ≠ "" := by
  decide +kernel

end Supergraph.DiskCache
