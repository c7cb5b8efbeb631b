import Waterdisco.Api.Feeds

/-!
# What a tick of the change feed finds

A tick compares with the tick before.  It finds a topic whose content, or a revision it
goes by, moved since then; a content that came back to what the last tick saw, or that
changed before there was a tick, is not found.

    a topic's number passes a cursor ↔ it had passed it, or the tick finds the topic   (look_seqs)
    after a tick no client is left behind ↔ nothing was overlooked                     (finds_iff)
-/

namespace Waterdisco.Feeds

open List RepoBaseline Nat Function

variable {α β ρ τ η : Type}

/-! ## Contents -/

def Differs (v w : Views α β ρ τ) : Topic → Prop
  | .Status => v.status ≠ w.status
  | .Groups => v.groups ≠ w.groups
  | .Profiles => v.groups ≠ w.groups ∨ v.rows ≠ w.rows
  | .Tests => False
  | .Settings => v.settings ≠ w.settings

/-- **No client is left behind**: a topic whose content is not that of a client's last answer has a number above its cursor. -/
def Finds (s : Feed α β ρ τ η) : Prop :=
  ∀ client answer, s.last client = some answer → ∀ t, Differs answer.views s.views t → answer.cursor < s.topicSeqs t

/-- The revision of a repository is not that of the last tick. -/
def RevisionMoved (s : Feed α β ρ τ η) (r : Repo) : Prop := ∃ old, s.repoRevisions = some old ∧
    s.revisions r ≠ old.revisions r

/-- What a tick compares for a topic is not as the last tick saw it. -/
def Moved (s : Feed α β ρ τ η) (old : Views α β ρ τ) : Topic → Prop
  | .Status => s.views.status ≠ old.status ∨ s.views.settings ≠ old.settings ∨ RevisionMoved s .routes
  | .Groups => s.views.groups ≠ old.groups
  | .Profiles => s.views.groups ≠ old.groups ∨ RevisionMoved s .profiles
  | .Tests => False
  | .Settings => s.views.settings ≠ old.settings

/-- A client's content is out of date, and neither its cursor nor the last tick shows it. -/
def Overlooked (s : Feed α β ρ τ η) : Prop :=
  ∃ client answer t, s.last client = some answer ∧ Differs answer.views s.views t ∧ s.topicSeqs t ≤ answer.cursor ∧
    ∀ old, s.seen = some old → ¬Moved s old t

/-! ## Numbers -/

variable (changed : List Topic) (s : Feed α β ρ τ η)

theorem noteChanged_seqs (t : Topic) :
    (noteChanged changed s).topicSeqs t = if t ∈ changed then s.changeSeq + 1 else s.topicSeqs t := by
  rw [noteChanged]
  split
  · rename_i hempty
    rw [isEmpty_iff.mp hempty, if_neg not_mem_nil]
  · rfl

theorem noteChanged_seq :
    s.changeSeq ≤ (noteChanged changed s).changeSeq ∧ (noteChanged changed s).changeSeq ≤ s.changeSeq + 1 ∧
      (changed ≠ [] → (noteChanged changed s).changeSeq = s.changeSeq + 1) := by
  rw [noteChanged]
  split
  · rename_i hempty
    exact ⟨.refl, le_succ _, fun hne => absurd (isEmpty_iff.mp hempty) hne⟩
  · exact ⟨le_succ _, .refl, fun _ => rfl⟩

/-- Noting topics changes their numbers, and whether the settle timer runs. -/
theorem noteChanged_frame :
    (noteChanged changed s).views = s.views ∧ (noteChanged changed s).revisions = s.revisions ∧
      (noteChanged changed s).last = s.last ∧
      (noteChanged changed s).seen = s.seen ∧ (noteChanged changed s).statusHash = s.statusHash ∧
      (noteChanged changed s).repoRevisions = s.repoRevisions := by
  rw [noteChanged]
  split
  · exact ⟨rfl, rfl, rfl, rfl, rfl, rfl⟩
  · exact ⟨rfl, rfl, rfl, rfl, rfl, rfl⟩

/-- Numbers are bounded by the last one, and so are cursors. -/
structure Numbered (s : Feed α β ρ τ η) : Prop where
  seqs : ∀ t, s.topicSeqs t ≤ s.changeSeq
  cursors : ∀ client answer, s.last client = some answer → answer.cursor ≤ s.changeSeq

theorem Numbered.noteChanged {s : Feed α β ρ τ η} (hs : Numbered s) (changed : List Topic) :
    Numbered (noteChanged changed s) := by
  obtain ⟨hle, -, hfull⟩ := noteChanged_seq changed s
  constructor
  · intro t
    rw [noteChanged_seqs]
    split
    · rename_i hin
      exact Nat.le_of_eq (hfull (ne_nil_of_mem hin)).symm
    · exact Nat.le_trans (hs.seqs t) hle
  · intro client answer hlast
    rw [(noteChanged_frame changed s).2.2.1] at hlast
    exact Nat.le_trans (hs.cursors client answer hlast) hle

/-- A cursor is passed by what was above it, and by what is noted. -/
theorem lt_noteChanged {s : Feed α β ρ τ η} {c : Nat} (hc : c ≤ s.changeSeq) (changed : List Topic) (t : Topic) :
    c < (noteChanged changed s).topicSeqs t ↔ c < s.topicSeqs t ∨ t ∈ changed := by
  rw [noteChanged_seqs]
  split
  · rename_i hin
    exact iff_of_true (lt_succ_of_le hc) (.inr hin)
  · rename_i hout
    exact ⟨.inl, fun hor => hor.resolve_right hout⟩

/-! ## Ticks -/

section

variable [DecidableEq η] {h : Hashes α β τ η}

/-- The hashes and revisions are those of the last tick that looked. -/
structure Baselined (h : Hashes α β τ η) (s : Feed α β ρ τ η) : Prop where
  none : s.seen = none → s.statusHash = none ∧ s.repoRevisions = none
  some : ∀ old, s.seen = some old → s.statusHash = some (h.status old.status) ∧
    ∃ repos, s.repoRevisions = some repos ∧ repos.groupsHash = h.groups old.groups ∧
      repos.settingsHash = h.settings old.settings ∧
      (∀ r, repos.revisions r ≤ s.revisions r) ∧
      (s.revisions .groups = repos.revisions .groups → s.views.groups = old.groups) ∧
      (s.revisions .settings = repos.revisions .settings → s.views.settings = old.settings)

/-- No two contents have one hash. -/
structure Hashes.Injective (h : Hashes α β τ η) : Prop where
  status : Function.Injective h.status
  groups : Function.Injective h.groups
  settings : Function.Injective h.settings

/-- The topics that the repositories add to a tick. -/
def repoNoted (h : Hashes α β τ η) (s : Feed α β ρ τ η) : List Topic :=
  match s.repoRevisions with
  | none => []
  | some old => repoTopics h s old

def noted (h : Hashes α β τ η) (s : Feed α β ρ τ η) : List Topic := statusTopics h s ++ repoNoted h s

variable {s s' : Feed α β ρ τ η} {c : Nat} {e : Event α β ρ τ}

theorem pollRepos_seqs (hc : c ≤ s.changeSeq) (t : Topic) :
    c < (pollRepos h s).topicSeqs t ↔ c < s.topicSeqs t ∨ t ∈ repoNoted h s := by
  rw [pollRepos, repoNoted]
  cases s.repoRevisions with
  | none => exact (or_iff_left not_mem_nil).symm
  | some old => exact lt_noteChanged (s := s.withRepos (old.renew h s)) hc _ t

theorem repoNoted_congr (hviews : s'.views = s.views) (hrevisions : s'.revisions = s.revisions)
    (hrepos : s'.repoRevisions = s.repoRevisions) : repoNoted h s' = repoNoted h s := by
  rw [repoNoted, repoNoted, hrepos]
  cases s.repoRevisions with
  | none => rfl
  | some old =>
    dsimp only
    rw [repoTopics, repoTopics, hviews, hrevisions]

theorem look_seqs (hc : c ≤ s.changeSeq) (t : Topic) :
    c < (look h s).topicSeqs t ↔ c < s.topicSeqs t ∨ t ∈ noted h s := by
  have hcursor : c ≤ (noteChanged (statusTopics h s) s).changeSeq := Nat.le_trans hc (noteChanged_seq _ s).1
  obtain ⟨hviews, hrevisions, -, -, -, hrepos⟩ := noteChanged_frame (statusTopics h s) s
  have hpoll := pollRepos_seqs (h := h) (s := (noteChanged (statusTopics h s) s).withStatusHash (h.status s.views.status)) hcursor t
  rw [noted, mem_append, ← or_assoc, ← lt_noteChanged hc (statusTopics h s) t]
  exact hpoll.trans (or_congr Iff.rfl (iff_of_eq (congrArg (t ∈ ·) (repoNoted_congr hviews hrevisions hrepos))))

/-- What a tick notes is what moved since the last one. -/
theorem mem_noted (hinj : h.Injective) (hs : Baselined h s) {old : Views α β ρ τ} (hseen : s.seen = some old)
    (t : Topic) : t ∈ noted h s ↔ Moved s old t := by
  obtain ⟨hstatus, repos, hrepos, hgroups, hsettings, hle, hsame, hsame'⟩ := hs.some old hseen
  have hstatusMoved : h.status old.status ≠ h.status s.views.status ↔ s.views.status ≠ old.status :=
    not_congr (hinj.status.eq_iff.trans eq_comm)
  have hgroupsMoved : (s.revisions .groups ≠ repos.revisions .groups ∧ h.groups s.views.groups ≠ repos.groupsHash) ↔
      s.views.groups ≠ old.groups := by
    rw [hgroups, hinj.groups.ne_iff]
    exact and_iff_right_of_imp fun hne heq => hne (hsame heq)
  have hsettingsMoved : (s.revisions .settings ≠ repos.revisions .settings ∧
    h.settings s.views.settings ≠ repos.settingsHash) ↔
      s.views.settings ≠ old.settings := by
    rw [hsettings, hinj.settings.ne_iff]
    exact and_iff_right_of_imp fun hne heq => hne (hsame' heq)
  have hrevision : ∀ r, s.revisions r ≠ repos.revisions r ↔ RevisionMoved s r := by
    intro r
    constructor
    · exact fun hne => ⟨repos, hrepos, hne⟩
    · rintro ⟨repos', hrepos', hne⟩
      obtain rfl := Option.some.inj (hrepos.symm.trans hrepos')
      exact hne
  have hif : ∀ (p : Prop) [Decidable p] (l : List Topic), t ∈ (if p then l else []) ↔ p ∧ t ∈ l := by
    intro p _ l
    split
    · rename_i hp
      exact (and_iff_right hp).symm
    · rename_i hp
      exact iff_of_false not_mem_nil fun hboth => hp hboth.1
  rw [noted, statusTopics, repoNoted, hstatus, hrepos]
  dsimp only
  rw [repoTopics, mem_append, mem_append, mem_append, mem_append, hif, hif, hif, hif, hif, hstatusMoved, hgroupsMoved,
    hsettingsMoved, hrevision, hrevision]
  cases t <;> simp only [Moved, mem_cons, not_mem_nil] <;> grind

/-! ## Steps -/

/-- All but the held requests and the timers. -/
structure Same (s s' : Feed α β ρ τ η) : Prop where
  views : s'.views = s.views
  revisions : s'.revisions = s.revisions
  changeSeq : s'.changeSeq = s.changeSeq
  topicSeqs : s'.topicSeqs = s.topicSeqs
  statusHash : s'.statusHash = s.statusHash
  repoRevisions : s'.repoRevisions = s.repoRevisions
  last : s'.last = s.last
  seen : s'.seen = s.seen

theorem step_induction {P : Feed α β ρ τ η → Prop} (hsame : ∀ s s', Same s s' → P s → P s')
    (hanswer : ∀ s client after everything, P s → P (eventsResponse client after everything s))
    (hlook : ∀ s, P s → P (look h s))
    (hchange : ∀ c, e = .change c → P s → P (change c s)) (hs : P s) : P (step h s e) := by
  have hpoll : ∀ s, P s → P (pollStatus h s) := by
    intro s hs
    rw [pollStatus]
    split
    · exact hsame s _ ⟨rfl, rfl, rfl, rfl, rfl, rfl, rfl, rfl⟩ hs
    · exact hlook _ (hsame s _ ⟨rfl, rfl, rfl, rfl, rfl, rfl, rfl, rfl⟩ hs)
  cases e with
  | change c => exact hchange c rfl hs
  | getEvents client fresh timeout =>
    show P (getEvents h client fresh timeout s)
    rw [getEvents]
    split
    · exact hanswer s _ _ _ hs
    split
    · exact hanswer s _ _ _ hs
    split
    · exact hsame s _ ⟨rfl, rfl, rfl, rfl, rfl, rfl, rfl, rfl⟩ hs
    · exact hpoll _ (hsame s _ ⟨rfl, rfl, rfl, rfl, rfl, rfl, rfl, rfl⟩ hs)
  | pollStatus => exact hpoll s hs
  | settleEvents =>
    have hanswers : ∀ (ws : List Waiter) (s : Feed α β ρ τ η), P s →
        P (ws.foldl (fun s w => eventsResponse w.client w.after false s) s) := by
      intro ws
      induction ws with
      | nil => exact fun _ hs => hs
      | cons w ws ih => exact fun s hs => ih _ (hanswer s _ _ _ hs)
    exact hsame (foldl _ s _) _ ⟨rfl, rfl, rfl, rfl, rfl, rfl, rfl, rfl⟩ (hanswers _ s hs)
  | deadline i =>
    show P (deadline i s)
    rw [deadline]
    split
    · exact hs
    split
    · exact hs
    · exact hsame (eventsResponse _ _ false s) _ ⟨rfl, rfl, rfl, rfl, rfl, rfl, rfl, rfl⟩ (hanswer s _ _ false hs)

/-- A tick that looks, alone or at a request, is the look at the same state. -/
theorem looks_step (he : Looks s e) : ∃ s', Same s s' ∧ step h s e = look h s' := by
  cases e with
  | change c => cases he
  | settleEvents => cases he
  | deadline i => cases he
  | pollStatus =>
    refine ⟨s.withWaiters (held s), ⟨rfl, rfl, rfl, rfl, rfl, rfl, rfl, rfl⟩, ?_⟩
    show pollStatus h s = _
    rw [pollStatus, if_neg fun hempty => he (isEmpty_iff.mp hempty)]
  | getEvents client fresh timeout =>
    obtain ⟨rfl, htimeout, hoff, answer, hlast, hnew⟩ := he
    have hheld : ¬(held ((s.withWaiters (s.eventWaiters ++
      [⟨client, answer.cursor, false⟩])).withPoll true)).isEmpty = true := by
      show ¬((s.eventWaiters ++ [(⟨client, answer.cursor,
        false⟩ : Waiter)]).filter fun w : Waiter => !w.done).isEmpty = true
      rw [filter_append, List.isEmpty_iff, append_eq_nil_iff]
      exact fun hboth => (by cases hboth.2)
    have hwaits : ¬(decide (timeout = 0) || changedAfter answer.cursor s) = true := by
      rw [hnew, Bool.or_false, decide_eq_true_iff]
      exact htimeout
    generalize hwaiting : (s.withWaiters (s.eventWaiters ++
      [⟨client, answer.cursor, false⟩])).withPoll true = waiting at hheld
    refine ⟨waiting.withWaiters (held waiting), ?_, ?_⟩
    · rw [← hwaiting]
      exact ⟨rfl, rfl, rfl, rfl, rfl, rfl, rfl, rfl⟩
    show getEvents h client false timeout s = _
    rw [getEvents, if_neg Bool.false_ne_true, hlast]
    dsimp only
    rw [if_neg hwaits, if_neg (by rw [hoff]; exact Bool.false_ne_true), hwaiting, pollStatus, if_neg hheld]

/-! ## What holds in every state -/

structure Inv (h : Hashes α β τ η) (s : Feed α β ρ τ η) : Prop where
  numbered : Numbered s
  baselined : Baselined h s

omit [DecidableEq η] in
theorem Inv.same (hsame : Same s s') (hs : Inv h s) : Inv h s' := by
  obtain ⟨⟨hseqs, hcursors⟩, ⟨hnone, hsome⟩⟩ := hs
  constructor
  · constructor
    · rw [hsame.topicSeqs, hsame.changeSeq]
      exact hseqs
    · rw [hsame.last, hsame.changeSeq]
      exact hcursors
  · constructor
    · rw [hsame.seen, hsame.statusHash, hsame.repoRevisions]
      exact hnone
    · rw [hsame.seen, hsame.statusHash, hsame.repoRevisions, hsame.revisions, hsame.views]
      exact hsome

omit [DecidableEq η] in
theorem Inv.answer (hs : Inv h s) (client after : Nat) (everything : Bool) :
    Inv h (eventsResponse client after everything s) := by
  refine ⟨⟨hs.numbered.seqs, fun client' answer hlast => ?_⟩, ⟨hs.baselined.none, hs.baselined.some⟩⟩
  change update s.last client _ client' = some answer at hlast
  by_cases hclient : client' = client
  · rw [hclient, update_self] at hlast
    rw [← Option.some.inj hlast]
    exact Nat.le_refl s.changeSeq
  · rw [update_of_ne hclient] at hlast
    exact hs.numbered.cursors client' answer hlast

theorem pollRepos_frame (s : Feed α β ρ τ η) :
    (pollRepos h s).views = s.views ∧ (pollRepos h s).revisions = s.revisions ∧ (pollRepos h s).last = s.last ∧
      (pollRepos h s).statusHash = s.statusHash ∧ s.changeSeq ≤ (pollRepos h s).changeSeq := by
  rw [pollRepos]
  split
  · exact ⟨rfl, rfl, rfl, rfl, .refl⟩
  rename_i old _
  obtain ⟨hviews, hrevisions, hlast, -, hhash, -⟩ := noteChanged_frame (repoTopics h s old) (s.withRepos (old.renew h s))
  exact ⟨hviews, hrevisions, hlast, hhash, (noteChanged_seq _ (s.withRepos (old.renew h s))).1⟩

/-- A look leaves what is shown and what clients know, and makes this what was seen. -/
theorem look_frame (s : Feed α β ρ τ η) :
    (look h s).views = s.views ∧ (look h s).revisions = s.revisions ∧ (look h s).last = s.last ∧
      (look h s).seen = some s.views ∧
      (look h s).statusHash = some (h.status s.views.status) ∧ s.changeSeq ≤ (look h s).changeSeq := by
  obtain ⟨hviews, hrevisions, hlast, -, -, -⟩ := noteChanged_frame (statusTopics h s) s
  have hseq := (noteChanged_seq (statusTopics h s) s).1
  obtain ⟨hviews', hrevisions', hlast', hhash', hseq'⟩ :=
    pollRepos_frame (h := h) ((noteChanged (statusTopics h s) s).withStatusHash (h.status s.views.status))
  exact ⟨hviews'.trans hviews, hrevisions'.trans hrevisions, hlast'.trans hlast, rfl, hhash', Nat.le_trans hseq hseq'⟩

omit [DecidableEq η] in
/-- Hashes that are not taken anew are those of what is shown. -/
theorem renew_eq {old : Views α β ρ τ} {repos : RepoBaseline η} (hgroups : repos.groupsHash = h.groups old.groups)
    (hsettings : repos.settingsHash = h.settings old.settings)
    (hsame : s.revisions .groups = repos.revisions .groups → s.views.groups = old.groups)
    (hsame' : s.revisions .settings = repos.revisions .settings → s.views.settings = old.settings) :
    repos.renew h s = RepoBaseline.of h s := by
  rw [renew, of]
  congr 1
  · split
    · rfl
    · rename_i hunmoved
      rw [hgroups, hsame (not_not.mp hunmoved)]
  · split
    · rfl
    · rename_i hunmoved
      rw [hsettings, hsame' (not_not.mp hunmoved)]

theorem look_repos (hs : Baselined h s) : (look h s).repoRevisions = some (RepoBaseline.of h s) := by
  obtain ⟨hviews, hrevisions, -, -, -, hrepos⟩ := noteChanged_frame (statusTopics h s) s
  show (pollRepos h ((noteChanged (statusTopics h s) s).withStatusHash (h.status s.views.status))).repoRevisions = _
  generalize noteChanged (statusTopics h s) s = first at *
  have hof : of h (first.withStatusHash (h.status s.views.status)) = of h s := by
    rw [of, of]
    show (⟨first.revisions, h.groups first.views.groups, h.settings first.views.settings⟩ : RepoBaseline η) = _
    rw [hviews, hrevisions]
  have hpolled : (first.withStatusHash (h.status s.views.status)).repoRevisions = s.repoRevisions := hrepos
  rw [pollRepos, hpolled, ← hof]
  cases hseen : s.seen with
  | none =>
    rw [(hs.none hseen).2]
    rfl
  | some old =>
    obtain ⟨-, repos, hrepos', hgroups, hsettings, -, hsame, hsame'⟩ := hs.some old hseen
    rw [← hviews, ← hrevisions] at hsame hsame'
    rw [hrepos']
    refine (noteChanged_frame _ _).2.2.2.2.2.trans (congrArg some ?_)
    exact renew_eq (s := first.withStatusHash (h.status s.views.status)) hgroups hsettings hsame hsame'

theorem Inv.look (hs : Inv h s) : Inv h (look h s) := by
  obtain ⟨hviews, hrevisions, hlast, hseen, hhash, hseq⟩ := look_frame (h := h) s
  have hrepos := look_repos hs.baselined
  have hfirst := hs.numbered.noteChanged (statusTopics h s)
  constructor
  · constructor
    · show ∀ t, (pollRepos h ((noteChanged (statusTopics h s) s).withStatusHash (h.status s.views.status))).topicSeqs t ≤
        (pollRepos h ((noteChanged (statusTopics h s) s).withStatusHash (h.status s.views.status))).changeSeq
      rw [pollRepos]
      generalize noteChanged (statusTopics h s) s = first at *
      split
      · exact hfirst.seqs
      rename_i old _
      have hready : Numbered ((first.withStatusHash (h.status s.views.status)).withRepos
          (old.renew h (first.withStatusHash (h.status s.views.status)))) := ⟨hfirst.seqs, hfirst.cursors⟩
      exact (hready.noteChanged _).seqs
    · rw [hlast]
      exact fun client answer hanswer => Nat.le_trans (hs.numbered.cursors client answer hanswer) hseq
  · constructor
    · intro hnone
      rw [hseen] at hnone
      cases hnone
    intro old hold
    obtain rfl := Option.some.inj (hseen.symm.trans hold)
    refine ⟨hhash, _, hrepos, rfl, rfl, fun r => ?_, fun _ => ?_, fun _ => ?_⟩
    · rw [hrevisions]
      exact .refl
    · rw [hviews]
    · rw [hviews]

omit [DecidableEq η] in
theorem Inv.change {c : Change α β ρ τ} (hc : c.Proper s) (hs : Inv h s) : Inv h (change c s) := by
  obtain ⟨hviews, hrevisions, hlast, hseen, hhash, hrepos⟩ := noteChanged_frame c.announced (c.made s)
  have hmade : Numbered (c.made s) := ⟨hs.numbered.seqs, hs.numbered.cursors⟩
  have hrevision : ∀ r, (Feeds.change c s).revisions r = if c.through r then s.revisions r + 1 else s.revisions r :=
    fun r => congrFun hrevisions r
  have hkept : ∀ r n, n ≤ s.revisions r → (Feeds.change c s).revisions r = n → c.through r = false ∧
    s.revisions r = n := by
    intro r n hle heq
    rw [hrevision] at heq
    split at heq
    · omega
    · rename_i hthrough
      exact ⟨Bool.eq_false_iff.mpr hthrough, heq⟩
  refine ⟨hmade.noteChanged _, fun hnone => ?_, fun old hold => ?_⟩
  · obtain ⟨hstatus, hnone⟩ := hs.baselined.none (hseen.symm.trans hnone)
    exact ⟨hhash.trans hstatus, hrepos.trans hnone⟩
  obtain ⟨hstatus, repos, hrepos', hgroups, hsettings, hle, hsame, hsame'⟩ :=
    hs.baselined.some old (hseen.symm.trans hold)
  refine ⟨hhash.trans hstatus, repos, hrepos.trans hrepos', hgroups, hsettings, fun r => ?_,
    fun heq => ?_, fun heq => ?_⟩
  · rw [hrevision]
    have hr := hle r
    split
    · omega
    · exact hr
  · obtain ⟨hthrough, hunmoved⟩ := hkept .groups _ (hle .groups) heq
    rw [← hsame hunmoved]
    show (noteChanged c.announced (c.made s)).views.groups = _
    rw [hviews]
    by_contra hne
    rw [hc.1 hne] at hthrough
    cases hthrough
  · obtain ⟨hthrough, hunmoved⟩ := hkept .settings _ (hle .settings) heq
    rw [← hsame' hunmoved]
    show (noteChanged c.announced (c.made s)).views.settings = _
    rw [hviews]
    by_contra hne
    rw [hc.2 hne] at hthrough
    cases hthrough

omit [DecidableEq η] in
theorem inv_start (views : Views α β ρ τ) (revisions : Revisions) :
    Inv h ({ views := views, revisions := revisions } : Feed α β ρ τ η) :=
  ⟨⟨fun _ => Nat.le_refl 0, fun _ _ hlast => (by cases hlast)⟩, ⟨fun _ => ⟨rfl, rfl⟩, fun _ hold => (by cases hold)⟩⟩

theorem inv_step (he : Allowed s e) (hs : Inv h s) : Inv h (step h s e) := by
  refine step_induction (fun _ _ hsame => Inv.same hsame) (fun _ client after everything hs =>
    hs.answer client after everything)
    (fun _ hs => hs.look) (fun c hevent hs => ?_) hs
  subst hevent
  exact hs.change he

theorem Reachable.inv (hs : Reachable h s) : Inv h s := by
  induction hs with
  | start views revisions => exact inv_start views revisions
  | step e _ he ih => exact inv_step he ih

/-! ## What a tick finds -/

theorem lt_look_iff (hinj : h.Injective) (hs : Inv h s) (hc : c ≤ s.changeSeq) (t : Topic) :
    c < (look h s).topicSeqs t ↔ c < s.topicSeqs t ∨ ∃ old, s.seen = some old ∧ Moved s old t := by
  rw [look_seqs hc]
  refine or_congr Iff.rfl ?_
  cases hseen : s.seen with
  | none =>
    obtain ⟨hstatus, hrepos⟩ := hs.baselined.none hseen
    rw [noted, statusTopics, repoNoted, hstatus, hrepos]
    exact iff_of_false not_mem_nil fun ⟨_, hold, _⟩ => (by cases hold)
  | some old =>
    rw [mem_noted hinj hs.baselined hseen]
    exact ⟨fun hm => ⟨old, rfl, hm⟩, fun ⟨_, hold, hm⟩ => Option.some.inj hold ▸ hm⟩

theorem finds_look (hinj : h.Injective) (hs : Inv h s) : Finds (look h s) ↔ ¬Overlooked s := by
  obtain ⟨hviews, -, hlast, -, -, -⟩ := look_frame (h := h) s
  rw [Finds, Overlooked, hviews, hlast]
  constructor
  · rintro hfinds ⟨client, answer, t, hanswer, hdiffers, hle, hunmoved⟩
    have hnumber := lt_look_iff hinj hs (hs.numbered.cursors client answer hanswer) t
    rcases hnumber.mp (hfinds client answer hanswer t hdiffers) with hlt | ⟨old, hseen, hm⟩
    · exact absurd hlt (Nat.not_lt.mpr hle)
    · exact hunmoved old hseen hm
  · intro hnone client answer hanswer t hdiffers
    apply (lt_look_iff hinj hs (hs.numbered.cursors client answer hanswer) t).mpr
    by_contra hnot
    rw [not_or] at hnot
    exact hnone ⟨client, answer, t, hanswer, hdiffers, Nat.not_lt.mp hnot.1, fun old hseen hm => hnot.2 ⟨old, hseen, hm⟩⟩

omit [DecidableEq η] in
theorem Same.moved (hsame : Same s s') (old : Views α β ρ τ) (t : Topic) : Moved s' old t ↔ Moved s old t := by
  have hrevision : ∀ r, RevisionMoved s' r ↔ RevisionMoved s r := by
    intro r
    rw [RevisionMoved, RevisionMoved, hsame.repoRevisions, hsame.revisions]
  cases t with
  | Status => rw [Moved, Moved, hsame.views, hrevision]
  | Groups => rw [Moved, Moved, hsame.views]
  | Profiles => rw [Moved, Moved, hsame.views, hrevision]
  | Tests => rfl
  | Settings => rw [Moved, Moved, hsame.views]

/-- **After a tick that looks**, no client is left behind if and only if nothing was overlooked. -/
theorem finds_iff (hinj : h.Injective) (hs : Inv h s) (he : Looks s e) :
    Finds (step h s e) ↔ ¬Overlooked s := by
  obtain ⟨s', hsame, hstep⟩ := looks_step (h := h) he
  rw [hstep, finds_look hinj (hs.same hsame), Overlooked, Overlooked]
  simp only [hsame.moved, hsame.views, hsame.last, hsame.topicSeqs, hsame.seen]

/-! ## Runs without a change that a tick cannot see -/

/-- A topic that the change is not announced under, and whose number has not passed the client's cursor, keeps the client's content
before the first tick, and after it does not come back to what the last tick saw and the client did not; other profiles are
shown only through their repository. -/
def Seen (s : Feed α β ρ τ η) (answer : Answer α β ρ τ) (c : Change α β ρ τ) (t : Topic) : Prop :=
  match s.seen with
  | none => ¬Differs answer.views c.views t
  | some old =>
    match t with
    | .Status => c.views.status = old.status → answer.views.status = old.status ∨ s.views.status = old.status
    | .Groups => c.views.groups = old.groups → answer.views.groups = old.groups ∨ s.views.groups = old.groups
    | .Profiles => (c.views.groups = old.groups → answer.views.groups = old.groups ∨ s.views.groups = old.groups) ∧
      (c.views.rows = s.views.rows ∨ c.views.rows = answer.views.rows ∨ c.through .profiles = true)
    | .Tests => True
    | .Settings => c.views.settings = old.settings → answer.views.settings = old.settings ∨ s.views.settings = old.settings

/-- A change that the next tick can tell, for every client that has an answer. -/
def Calm (s : Feed α β ρ τ η) : Event α β ρ τ → Prop
  | .change c => ∀ client answer, s.last client = some answer → ∀ t,
    t ∈ c.announced ∨ answer.cursor < s.topicSeqs t ∨ Seen s answer c t
  | _ => True

variable (h) in
/-- The states of a run whose changes are all calm. -/
inductive CalmRun : Feed α β ρ τ η → Prop
  | start (views : Views α β ρ τ) (revisions : Revisions) : CalmRun { views := views, revisions := revisions }
  | step {s : Feed α β ρ τ η} (e : Event α β ρ τ) : CalmRun s → Allowed s e → Calm s e → CalmRun (step h s e)

theorem CalmRun.reachable (hs : CalmRun h s) : Reachable h s := by
  induction hs with
  | start views revisions => exact .start views revisions
  | step e _ he _ ih => exact .step e ih he

/-- For a client: what is out of date has a number above the cursor, or the next tick tells it. -/
def Told (s : Feed α β ρ τ η) (answer : Answer α β ρ τ) (t : Topic) : Prop :=
  answer.cursor < s.topicSeqs t ∨
    match s.seen with
    | none => ¬Differs answer.views s.views t
    | some old =>
      match t with
      | .Status => answer.views.status = old.status ∨ s.views.status ≠ old.status
      | .Groups => answer.views.groups = old.groups ∨ s.views.groups ≠ old.groups
      | .Profiles => (answer.views.groups = old.groups ∨ s.views.groups ≠ old.groups) ∧
        (answer.views.rows = s.views.rows ∨ RevisionMoved s .profiles)
      | .Tests => True
      | .Settings => answer.views.settings = old.settings ∨ s.views.settings ≠ old.settings

def AllTold (s : Feed α β ρ τ η) : Prop := ∀ client answer, s.last client = some answer → ∀ t, Told s answer t

omit [DecidableEq η] in
theorem AllTold.not_overlooked (hs : AllTold s) : ¬Overlooked s := by
  rintro ⟨client, answer, t, hanswer, hdiffers, hle, hunmoved⟩
  rcases hs client answer hanswer t with hlt | htold
  · exact absurd hlt (Nat.not_lt.mpr hle)
  cases hseen : s.seen with
  | none =>
    rw [hseen] at htold
    exact htold hdiffers
  | some old =>
    rw [hseen] at htold
    have hm := hunmoved old hseen
    cases t with
    | Status =>
      have hnow : s.views.status = old.status := not_not.mp fun hne => hm (.inl hne)
      exact hdiffers ((htold.resolve_right (not_not.mpr hnow)).trans hnow.symm)
    | Groups =>
      have hnow : s.views.groups = old.groups := not_not.mp fun hne => hm hne
      exact hdiffers ((htold.resolve_right (not_not.mpr hnow)).trans hnow.symm)
    | Profiles =>
      have hnow : s.views.groups = old.groups := not_not.mp fun hne => hm (.inl hne)
      rcases hdiffers with hgroups | hrows
      · exact hgroups ((htold.1.resolve_right (not_not.mpr hnow)).trans hnow.symm)
      · exact hrows (htold.2.resolve_right fun hrevision => hm (.inr hrevision))
    | Tests => exact hdiffers
    | Settings =>
      have hnow : s.views.settings = old.settings := not_not.mp fun hne => hm hne
      exact hdiffers ((htold.resolve_right (not_not.mpr hnow)).trans hnow.symm)

omit [DecidableEq η] in
theorem AllTold.same (hsame : Same s s') (hs : AllTold s) : AllTold s' := by
  intro client answer hanswer t
  rw [hsame.last] at hanswer
  have htold := hs client answer hanswer t
  rw [Told] at htold ⊢
  rw [hsame.topicSeqs, hsame.seen, hsame.views]
  refine htold.imp_right fun h => ?_
  cases hseen : s.seen with
  | none =>
    rwa [hseen] at h
  | some old =>
    rw [hseen] at h
    cases t with
    | Profiles =>
      refine h.imp_right (Or.imp_right ?_)
      rw [RevisionMoved, RevisionMoved, hsame.repoRevisions, hsame.revisions]
      exact id
    | _ => exact h

omit [DecidableEq η] in
theorem told_now (s : Feed α β ρ τ η) {answer : Answer α β ρ τ} (hviews : answer.views = s.views)
    (t : Topic) : Told s answer t := by
  right
  rw [hviews]
  cases s.seen with
  | none => cases t <;> simp [Differs]
  | some old =>
    cases t with
    | Status => exact em _
    | Groups => exact em _
    | Profiles => exact ⟨em _, .inl rfl⟩
    | Tests => trivial
    | Settings => exact em _

omit [DecidableEq η] in
theorem AllTold.answer (hs : AllTold s) (client after : Nat) (everything : Bool) :
    AllTold (eventsResponse client after everything s) := by
  intro client' answer hanswer t
  change update s.last client _ client' = some answer at hanswer
  by_cases hclient : client' = client
  · rw [hclient, update_self] at hanswer
    cases hanswer
    exact told_now (eventsResponse client after everything s) rfl t
  · rw [update_of_ne hclient] at hanswer
    exact hs client' answer hanswer t

theorem AllTold.look (hinj : h.Injective) (hinv : Inv h s) (hs : AllTold s) : AllTold (look h s) := by
  obtain ⟨hviews, -, -, hseen, -, -⟩ := look_frame (h := h) s
  have hfinds := (finds_look hinj hinv).mpr hs.not_overlooked
  intro client answer hanswer t
  by_cases hdiffers : Differs answer.views (Feeds.look h s).views t
  · exact .inl (hfinds client answer hanswer t hdiffers)
  right
  rw [hseen]
  rw [hviews] at hdiffers
  cases t with
  | Status => exact .inl (not_not.mp hdiffers)
  | Groups => exact .inl (not_not.mp hdiffers)
  | Profiles =>
    rw [Differs, not_or, not_not, not_not] at hdiffers
    exact ⟨.inl hdiffers.1, .inl (by rw [hviews]; exact hdiffers.2)⟩
  | Tests => trivial
  | Settings => exact .inl (not_not.mp hdiffers)

omit [DecidableEq η] in
/-- The profiles' revision stays away from that of the last tick. -/
theorem RevisionMoved.change (hs : Baselined h s) (c : Change α β ρ τ) {r : Repo}
    (hm : RevisionMoved s r ∨ (c.through r = true ∧ ∃ old, s.seen = some old)) : RevisionMoved (change c s) r := by
  obtain ⟨-, hrevisions, -, -, -, hrepos⟩ := noteChanged_frame c.announced (c.made s)
  have hrevision : (Feeds.change c s).revisions r =
    if c.through r then s.revisions r + 1 else s.revisions r := congrFun hrevisions r
  have hle : ∀ repos, s.repoRevisions = some repos → repos.revisions r ≤ s.revisions r := by
    intro repos hrepos
    cases hseen : s.seen with
    | none =>
      rw [(hs.none hseen).2] at hrepos
      cases hrepos
    | some old =>
      obtain ⟨-, repos', hrepos', -, -, hle, -⟩ := hs.some old hseen
      obtain rfl := Option.some.inj (hrepos.symm.trans hrepos')
      exact hle r
  rcases hm with ⟨repos, hbase, hne⟩ | ⟨hthrough, old, hseen⟩
  · refine ⟨repos, hrepos.trans hbase, ?_⟩
    have hbound := hle repos hbase
    rw [hrevision]
    split <;> omega
  · obtain ⟨-, repos, hbase, -⟩ := hs.some old hseen
    refine ⟨repos, hrepos.trans hbase, ?_⟩
    have hbound := hle repos hbase
    rw [hrevision, if_pos hthrough]
    omega

omit [DecidableEq η] in
theorem AllTold.change {c : Change α β ρ τ} (hinv : Inv h s)
    (hcalm : Calm s (.change c)) (hs : AllTold s) : AllTold (change c s) := by
  obtain ⟨hviews, -, hlast, hseen, -, -⟩ := noteChanged_frame c.announced (c.made s)
  intro client answer hanswer t
  have hbefore : s.last client = some answer := (congrFun hlast client).symm.trans hanswer
  have hnumber := lt_noteChanged (s := c.made s) (hinv.numbered.cursors client answer hbefore) c.announced t
  by_cases hpassed : answer.cursor < s.topicSeqs t ∨ t ∈ c.announced
  · exact .inl (hnumber.mpr hpassed)
  rw [not_or] at hpassed
  right
  have hcalmly := ((hcalm client answer hbefore t).resolve_left hpassed.2).resolve_left hpassed.1
  have htold := (hs client answer hbefore t).resolve_left hpassed.1
  have hnow : (Feeds.change c s).views = c.views := hviews
  have hold : (Feeds.change c s).seen = s.seen := hseen
  rw [hold, hnow]
  rw [Seen] at hcalmly
  cases hs' : s.seen with
  | none =>
    rwa [hs'] at hcalmly
  | some old =>
    rw [hs'] at hcalmly htold
    have hback : ∀ {γ : Type} {a now next base : γ}, (next = base → a = base ∨ now = base) →
      (a = base ∨ now ≠ base) → a = base ∨ next ≠ base := by
      intro γ a now next base hreturn hor
      by_cases hnext : next = base
      · exact .inl ((hreturn hnext).elim id fun heq => hor.resolve_right (not_not.mpr heq))
      · exact .inr hnext
    cases t with
    | Status => exact hback hcalmly htold
    | Groups => exact hback hcalmly htold
    | Profiles =>
      refine ⟨hback hcalmly.1 htold.1, ?_⟩
      rcases htold.2 with hrows | hm
      · rcases hcalmly.2 with hsame | hclient | hthrough
        · exact .inl (hrows.trans hsame.symm)
        · exact .inl hclient.symm
        · exact .inr (RevisionMoved.change hinv.baselined c (.inr ⟨hthrough, old, hs'⟩))
      · exact .inr (RevisionMoved.change hinv.baselined c (.inl hm))
    | Tests => trivial
    | Settings => exact hback hcalmly htold

theorem CalmRun.allTold (hinj : h.Injective) (hs : CalmRun h s) : AllTold s := by
  induction hs with
  | start views revisions => exact fun _ _ hlast => (by cases hlast)
  | @step s e hrun he hcalm ih =>
    have hboth : Inv h (Feeds.step h s e) ∧ AllTold (Feeds.step h s e) := by
      refine step_induction (P := fun s => Inv h s ∧ AllTold s) (fun _ _ hsame hs => ⟨hs.1.same hsame, hs.2.same hsame⟩)
        (fun _ client after everything hs => ⟨hs.1.answer client after everything, hs.2.answer client after everything⟩)
        (fun _ hs => ⟨hs.1.look, hs.2.look hinj hs.1⟩) (fun c hevent hs => ?_) ⟨hrun.reachable.inv, ih⟩
      subst hevent
      exact ⟨hs.1.change he, hs.2.change hs.1 hcalm⟩
    exact hboth.2

/-- **Ticks of the change feed.**  A tick that looks leaves no client behind if and only if nothing was overlooked before it;
in a run whose changes are all calm, none does. -/
theorem ticks_find (hinj : h.Injective) {s : Feed α β ρ τ η} {e : Event α β ρ τ} (he : Looks s e) :
    (Reachable h s → (Finds (step h s e) ↔ ¬Overlooked s)) ∧ (CalmRun h s → Finds (step h s e)) :=
  ⟨fun hs => finds_iff hinj hs.inv he, fun hs =>
   (finds_iff hinj hs.reachable.inv he).mpr (hs.allTold hinj).not_overlooked⟩

end

/-! ## Clients left behind -/

/-- Contents that are numbers, and are their own hashes. -/
def plain : Hashes Nat Nat Nat Nat := ⟨id, id, id⟩

theorem plain_injective : plain.Injective := ⟨fun _ _ => id, fun _ _ => id, fun _ _ => id⟩

abbrev PlainFeed := Feed Nat Nat Nat Nat Nat

/-- A client has its first answer. -/
def answered : PlainFeed := step plain { views := ⟨0, 0, 0, 0⟩, revisions := fun _ => 0 } (.getEvents 0 true 0)

theorem answered_calm : CalmRun plain answered := .step _ (.start _ _) trivial trivial

theorem ticks_find_answered :
    (Finds (step plain answered (.getEvents 0 false 60)) ↔ ¬Overlooked answered) ∧
      Finds (step plain answered (.getEvents 0 false 60)) :=
  have he : Looks answered (.getEvents 0 false 60) := ⟨rfl, by decide, rfl, _, rfl, rfl⟩
  ⟨(ticks_find plain_injective he).1 answered_calm.reachable, (ticks_find plain_injective he).2 answered_calm⟩

/-- The settings change before there was a tick. -/
def changedFirst : PlainFeed := step plain answered (.change ⟨⟨0, 0, 0, 1⟩, (· == .settings), []⟩)

theorem changedFirst_reachable : Reachable plain changedFirst := by
  exact .step _ answered_calm.reachable ⟨fun hne => absurd rfl hne, fun _ => rfl⟩

/-- The groups change, announced, and the client is answered; then they change back. -/
def changedBack : PlainFeed :=
  [.getEvents 0 false 60, .change ⟨⟨0, 1, 0, 0⟩, (· == .groups), [.Groups, .Profiles]⟩, .settleEvents,
    .change ⟨⟨0, 0, 0, 0⟩, (· == .groups), []⟩, .getEvents 0 false 60].foldl (step plain) answered

theorem changedBack_reachable : Reachable plain changedBack := by
  have hheld := Reachable.step (h := plain) (.getEvents 0 false 60) answered_calm.reachable trivial
  have hchanged := hheld.step (.change ⟨⟨0, 1, 0, 0⟩, (· == .groups), [.Groups, .Profiles]⟩)
    ⟨fun _ => rfl, fun hne => absurd rfl hne⟩
  have hsettled := hchanged.step .settleEvents rfl
  have hback := hsettled.step (.change ⟨⟨0, 0, 0, 0⟩, (· == .groups), []⟩)
    ⟨fun _ => rfl, fun hne => absurd rfl hne⟩
  exact hback.step (.getEvents 0 false 60) trivial

/-- A request is held, and an endpoint of a group is edited, which changes an address. -/
def changedEndpoint : PlainFeed :=
  [.getEvents 0 false 60, .change ⟨⟨0, 0, 1, 0⟩, (· == .groups), []⟩].foldl (step plain) answered

theorem changedEndpoint_reachable : Reachable plain changedEndpoint :=
  (Reachable.step (h := plain) (.getEvents 0 false 60) answered_calm.reachable trivial).step (.change ⟨⟨0, 0, 1, 0⟩, (· == .groups), []⟩)
    ⟨fun hne => absurd rfl hne, fun hne => absurd rfl hne⟩

/-- **A client is left behind** by a change before the first tick, by one that goes back to what the last tick saw, and by one
of the addresses. -/
theorem ticks_miss :
    (Reachable plain changedFirst ∧ Looks changedFirst (.getEvents 0 false 60) ∧
      ¬Finds (step plain changedFirst (.getEvents 0 false 60))) ∧
    (Reachable plain changedBack ∧ Looks changedBack .pollStatus ∧ ¬Finds (step plain changedBack .pollStatus)) ∧
    (Reachable plain changedEndpoint ∧ Looks changedEndpoint .pollStatus ∧
      ¬Finds (step plain changedEndpoint .pollStatus)) := by
  refine ⟨⟨changedFirst_reachable, ⟨rfl, by decide, rfl, _, rfl, rfl⟩, fun hfinds => ?_⟩,
    ⟨changedBack_reachable, (by decide : held changedBack ≠ []), fun hfinds => ?_⟩,
    ⟨changedEndpoint_reachable, (by decide : held changedEndpoint ≠ []), fun hfinds => ?_⟩⟩
  · exact absurd (hfinds 0 _ rfl .Settings (by show (0 : Nat) ≠ 1; decide)) (by decide)
  · exact absurd (hfinds 0 _ rfl .Groups (by show (1 : Nat) ≠ 0; decide)) (by decide)
  · exact absurd (hfinds 0 _ rfl .Profiles (.inr (by show (0 : Nat) ≠ 1; decide))) (by decide)

end Waterdisco.Feeds
