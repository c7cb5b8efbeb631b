import Waterdisco.Ui.RankedTest

/-!
# The runs of a ranked speed test

    Kept e e'    := e resolved → its status and its speed are the same in e'
    Inv s        := nobody is counted twice, the bests are the least of the accepted times,
                    and what the batch thread has read still holds
    Careful s e  := e settles no profile that the batch thread is marking, slows none down,
                    and is not a connection time after the connection test

Every run of careful events has `Inv` (`Inv.run`), a settled profile keeps its status and its
speed (`keeps_run`), and the times only fall (`falls_run`): `ranked_contract`.  Without care
the thread marks what it has just read as untested (`late_tick_counts_twice`).
-/

namespace Waterdisco.RankedTest

open List Function Test

/-! ## The least of the accepted times -/

/-- `best` is the least of `times`, or nothing is set as there is none. -/
structure Least (best : Int) (times : List Int) : Prop where
  pos : ∀ t ∈ times, 0 < t
  le : ∀ t ∈ times, best ≤ t
  mem : 0 < best → best ∈ times
  empty : best ≤ 0 → times = []

variable {best : Int}

/-- A time that is set stays set, and does not grow. -/
abbrev Falls (a b : Int) : Prop := 0 < a → 0 < b ∧ b ≤ a

theorem Falls.refl (a : Int) : Falls a a := fun h => ⟨h, le_refl _⟩

theorem noteFasterMs_le (observed : Int) : Falls best (noteFasterMs best observed) := by
  intro h
  unfold noteFasterMs
  split
  · exact ⟨h, le_refl _⟩
  · split <;> omega

theorem foldl_noteFasterMs_le (times : List Int) : Falls best (times.foldl noteFasterMs best) := by
  intro h
  induction times generalizing best with
  | nil => exact ⟨h, le_refl _⟩
  | cons t times ih =>
    obtain ⟨hpos, hle⟩ := noteFasterMs_le t h
    obtain ⟨hpos', hle'⟩ := ih hpos
    exact ⟨hpos', le_trans hle' hle⟩

theorem Least.note {times : List Int} (h : Least best times) {t : Int} (ht : 0 < t) :
    Least (noteFasterMs best t) (times ++ [t]) := by
  have hmem : ∀ u ∈ times ++ [t], u ∈ times ∨ u = t := by simp
  have hpos : ∀ u ∈ times ++ [t], 0 < u := by
    intro u hu
    rcases hmem u hu with hu | rfl
    · exact h.pos u hu
    · exact ht
  unfold noteFasterMs
  rw [if_neg (by omega)]
  by_cases hb : best ≤ 0 ∨ t < best
  · rw [if_pos hb]
    refine ⟨hpos, fun u hu => ?_, fun _ => by simp, fun hle => by omega⟩
    rcases hmem u hu with hu | rfl
    · rcases hb with hb | hb
      · rw [h.empty hb] at hu
        cases hu
      · exact le_trans (le_of_lt hb) (h.le u hu)
    · exact le_refl _
  · rw [if_neg hb]
    refine ⟨hpos, fun u hu => ?_, fun hpos => mem_append_left _ (h.mem hpos), fun hle => by omega⟩
    rcases hmem u hu with hu | rfl
    · exact h.le u hu
    · omega

theorem Least.notes {times : List Int} (h : Least best times) (ts : List Int) :
    Least (ts.foldl noteFasterMs best) (times ++ ts.filter (fun t => decide (0 < t))) := by
  induction ts generalizing best times with
  | nil => simpa using h
  | cons t ts ih =>
    rw [foldl_cons]
    by_cases ht : 0 < t
    · rw [filter_cons_of_pos (by simpa using ht)]
      simpa using ih (h.note ht)
    rw [filter_cons_of_neg (by simpa using ht)]
    have hsame : noteFasterMs best t = best := by
      unfold noteFasterMs
      rw [if_pos (by omega)]
    rw [hsame]
    exact ih h

/-- A time that was accepted before changes nothing. -/
theorem Least.known {times : List Int} (h : Least best times) {t : Int} (ht : 0 < t → t ∈ times) :
    noteFasterMs best t = best := by
  unfold noteFasterMs
  split
  · rfl
  have hmem := ht (by omega)
  have hle := h.le t hmem
  have hne : ¬ best ≤ 0 := by
    intro hb
    rw [h.empty hb] at hmem
    simp at hmem
  rw [if_neg (by omega)]

/-! ## One result -/

namespace Profile

/-- A resolved profile keeps its status and its speed. -/
def Kept (ent ent' : Profile) : Prop :=
  ent.status ≠ .untested → ent'.status = ent.status ∧ ent'.rxSpeedMbps = ent.rxSpeedMbps ∧ ent'.dlSpeed = ent.dlSpeed

theorem Kept.refl (ent : Profile) : ent.Kept ent := fun _ => ⟨rfl, rfl, rfl⟩

/-- An accepted connection time does not grow. -/
def Faster (ent ent' : Profile) : Prop :=
  Falls ent.connectTimeMs ent'.connectTimeMs ∧ (0 ≤ ent.connectTimeMs → 0 ≤ ent'.connectTimeMs)

theorem Faster.refl (ent : Profile) : ent.Faster ent := ⟨Falls.refl _, id⟩

theorem downloadAlreadyResolved_iff (ent : Profile) : ent.downloadAlreadyResolved = true ↔ ent.status ≠ .untested := by
  unfold downloadAlreadyResolved
  cases ent.status <;> decide

theorem connectionProbeAlreadyResolved_iff (ent : Profile) :
    ent.connectionProbeAlreadyResolved = true ↔ 0 < ent.connectTimeMs ∨ ent.status ≠ .untested := by
  unfold connectionProbeAlreadyResolved
  cases ent.status <;> simp

@[simp] theorem markPerformanceSkipped_connect (ent : Profile) :
    ent.markPerformanceSkipped.connectTimeMs = ent.connectTimeMs := rfl

theorem markPerformanceError_connect {ent : Profile} (h : 0 ≤ ent.connectTimeMs) :
    ent.markPerformanceError.connectTimeMs = ent.connectTimeMs := by
  unfold markPerformanceError
  rw [if_neg (by omega)]

end Profile

open Profile

/-- A connection result that is accepted as a time. -/
def AcceptsConnection (ent : Profile) (res : URLTestResp) : Prop :=
  isTestAborted res.error = false ∧ res.error = "" ∧ 0 < res.latencyMs ∧
    (0 < ent.connectTimeMs ∧ res.latencyMs < ent.connectTimeMs ∨ ent.connectTimeMs ≤ 0 ∧ ent.status = .untested)

/-- A connection result that resolves the profile. -/
def FailsConnection (ent : Profile) (res : URLTestResp) : Prop :=
  isTestAborted res.error = false ∧ ent.connectTimeMs ≤ 0 ∧ ent.status = .untested ∧
    ¬ (res.error = "" ∧ 0 < res.latencyMs)

def ResolvesDownload (ent : Profile) (res : SpeedTestResult) : Prop :=
  isTestAborted res.error = false ∧ ent.status = .untested

def SucceedsDownload (parseSpeedMbps : String → Rat) (ent : Profile) (res : SpeedTestResult) : Prop :=
  ResolvesDownload ent res ∧ res.error = "" ∧ res.cancelled = false ∧ 0 < parseSpeedMbps res.dlSpeed ∧
    (0 < res.latency ∨ 0 < ent.connectTimeMs)

instance (ent : Profile) (res : URLTestResp) : Decidable (AcceptsConnection ent res) := by
  unfold AcceptsConnection
  infer_instance

instance (ent : Profile) (res : URLTestResp) : Decidable (FailsConnection ent res) := by
  unfold FailsConnection
  infer_instance

instance (ent : Profile) (res : SpeedTestResult) : Decidable (ResolvesDownload ent res) := by
  unfold ResolvesDownload
  infer_instance

instance (parseSpeedMbps : String → Rat) (ent : Profile) (res : SpeedTestResult) :
    Decidable (SucceedsDownload parseSpeedMbps ent res) := by
  unfold SucceedsDownload
  infer_instance

section
variable (fallShort : Bool) (limitMs defaultTimeoutMs : Int) (ent : Profile)

/-- **A connection result** is accepted, or resolves the profile, or does nothing. -/
theorem applyConnectionResult_cases (res : URLTestResp) :
    (AcceptsConnection ent res ∧ applyConnectionResult fallShort limitMs defaultTimeoutMs ent res =
      ({ ent with connectTimeMs := res.latencyMs }, some res.latencyMs)) ∨
    (FailsConnection ent res ∧
      (applyConnectionResult fallShort limitMs defaultTimeoutMs ent res = (ent.markPerformanceError, none) ∨
        applyConnectionResult fallShort limitMs defaultTimeoutMs ent res = (ent.markPerformanceSkipped, none))) ∨
    applyConnectionResult fallShort limitMs defaultTimeoutMs ent res = (ent, none) := by
  unfold applyConnectionResult
  by_cases hab : isTestAborted res.error = true
  · rw [if_pos hab]
    exact .inr (.inr rfl)
  rw [if_neg hab]
  have hab' : isTestAborted res.error = false := by simpa using hab
  by_cases hpos : 0 < ent.connectTimeMs
  · rw [if_pos hpos]
    split
    · rename_i h
      exact .inl ⟨⟨hab', h.1, h.2.1, .inl ⟨hpos, h.2.2⟩⟩, rfl⟩
    · exact .inr (.inr rfl)
  rw [if_neg hpos]
  by_cases hres : ent.connectionProbeAlreadyResolved = true
  · rw [if_pos hres]
    exact .inr (.inr rfl)
  rw [if_neg hres]
  rw [connectionProbeAlreadyResolved_iff] at hres
  have hun : ent.status = .untested := by
    by_contra hne
    exact hres (.inr hne)
  by_cases hok : res.error = "" ∧ 0 < res.latencyMs
  · rw [if_pos hok]
    exact .inl ⟨⟨hab', hok.1, hok.2, .inr ⟨by omega, hun⟩⟩, rfl⟩
  rw [if_neg hok]
  refine .inr (.inl ⟨⟨hab', by omega, hun, hok⟩, ?_⟩)
  split
  · exact .inl rfl
  split
  · exact .inr rfl
  · exact .inl rfl

/-- **A download result** notes times only, or fails the profile, or is its speed, with the time it is applied with noted. -/
theorem applyDownloadResult_cases (parseSpeedMbps : String → Rat) (res : SpeedTestResult) {a : Applied}
    (ha : applyDownloadResult parseSpeedMbps fallShort limitMs defaultTimeoutMs ent res = a) :
    (∀ t ∈ a.connection, 0 < t) ∧
    ((a.profile = ent ∧ a.counted = none) ∨
    (ResolvesDownload ent res ∧ a.counted = some .skipped ∧
      (a.profile = ent.markPerformanceError ∨ a.profile = ent.markPerformanceSkipped)) ∨
    (SucceedsDownload parseSpeedMbps ent res ∧ a.counted = some .tested ∧
      (if 0 < res.latency then res.latency else ent.connectTimeMs) ∈ a.connection ∧
      a.profile = ent.setPerformanceResult (if 0 < res.latency then res.latency else ent.connectTimeMs)
        (parseSpeedMbps res.dlSpeed) res.dlSpeed)) := by
  subst ha
  have hnoted : ∀ t ∈ (if 0 < res.latency then [res.latency] else []), 0 < t := by
    intro t ht
    split at ht
    · next h => rwa [mem_singleton.mp ht]
    · cases ht
  unfold applyDownloadResult
  by_cases hres : ent.downloadAlreadyResolved = true
  · rw [if_pos hres]
    exact ⟨hnoted, .inl ⟨rfl, rfl⟩⟩
  rw [if_neg hres]
  have hun : ent.status = .untested := by
    by_contra hne
    exact hres ((downloadAlreadyResolved_iff ent).mpr hne)
  by_cases hab : isTestAborted res.error = true
  · rw [if_pos hab]
    exact ⟨hnoted, .inl ⟨rfl, rfl⟩⟩
  rw [if_neg hab]
  have hr : ResolvesDownload ent res := ⟨by simpa using hab, hun⟩
  by_cases hfail : res.error ≠ "" ∨ res.cancelled = true
  · rw [if_pos hfail]
    split
    · exact ⟨hnoted, .inr (.inl ⟨hr, rfl, .inr rfl⟩)⟩
    · exact ⟨hnoted, .inr (.inl ⟨hr, rfl, .inl rfl⟩)⟩
  rw [if_neg hfail]
  push Not at hfail
  by_cases hslow : parseSpeedMbps res.dlSpeed ≤ 0 ∨ (if 0 < res.latency then res.latency else ent.connectTimeMs) ≤ 0
  · rw [if_pos hslow]
    exact ⟨hnoted, .inr (.inl ⟨hr, rfl, .inl rfl⟩)⟩
  rw [if_neg hslow]
  push Not at hslow
  have htime : 0 < res.latency ∨ 0 < ent.connectTimeMs := by
    have := hslow.2
    split at this
    · exact .inl this
    · exact .inr this
  refine ⟨fun t ht => ?_, .inr (.inr ⟨⟨hr, hfail.1, by simpa using hfail.2, hslow.1, htime⟩, rfl,
    mem_append_right _ (mem_singleton.mpr rfl), rfl⟩)⟩
  rcases mem_append.mp ht with ht | ht
  · exact hnoted t ht
  · rw [mem_singleton.mp ht]
    exact hslow.2

end

/-! ## Careful events -/

def Pc.marks : Pc → Bool
  | .readSkipped | .readSuccess | .readNegative | .writeConnect | .writeRx | .writeStatus => true
  | .checkSkipped last | .checkError last => last
  | _ => false

namespace Test

/-- The batch thread is marking this profile. -/
def marking (s : Test) (id : Int) : Bool :=
  match s.batch with
  | .pass _ current pc => current == id && pc.marks
  | _ => false

/-- The mark is written, but for its text. -/
def finishing (s : Test) (id : Int) : Bool :=
  match s.batch with
  | .pass _ current .writeSpeed => current == id
  | _ => false

/-- A speed comes with no larger latency than the connection time that was accepted. -/
def Prompt (parseSpeedMbps : String → Rat) (ent : Profile) (res : SpeedTestResult) : Prop :=
  SucceedsDownload parseSpeedMbps ent res → 0 < ent.connectTimeMs → res.latency ≤ ent.connectTimeMs

/-- No event resolves a profile that the batch thread is marking, no speed slows a profile down,
and no connection time is accepted after the connection test. -/
def Careful (parseSpeedMbps : String → Rat) (s : Test) : Event → Prop
  | .connection id _ _ res =>
    (FailsConnection (s.profiles id) res → s.marking id = false) ∧
      (AcceptsConnection (s.profiles id) res → s.pretesting = true)
  | .download id _ _ res =>
    s.pretesting = false →
      (ResolvesDownload (s.profiles id) res → s.marking id = false) ∧ Prompt parseSpeedMbps (s.profiles id) res
  | .final id res =>
    match s.batch with
    | .results _ _ _ _ => Prompt parseSpeedMbps (s.profiles id) res
    | _ => True
  | _ => True

instance (parseSpeedMbps : String → Rat) (ent : Profile) (res : SpeedTestResult) :
    Decidable (Prompt parseSpeedMbps ent res) := by
  unfold Prompt
  infer_instance

instance (parseSpeedMbps : String → Rat) (s : Test) (e : Event) : Decidable (Careful parseSpeedMbps s e) := by
  unfold Careful
  repeat' split
  all_goals infer_instance

/-! ## What the batch thread has read -/

/-- What a read still says about the profile when the thread goes on. -/
def holds (status : Status) : Pc → Prop
  | .readSkipped => status ≠ .error
  | .readSuccess => status ≠ .error ∧ status ≠ .skipped
  | .checkSkipped last => last = true → status ≠ .success
  | .checkError last => last = true → status ≠ .success ∧ status ≠ .skipped
  | .readNegative | .writeRx | .writeStatus => status = .untested
  | .writeConnect => False
  | .writeSpeed | .readCount | .writeCount _ => status ≠ .untested
  | .readConnect | .readError | .checkSuccess _ => True

/-- The next write to a counter is for this profile. -/
def counts : Pc → Bool
  | .writeSpeed | .readCount | .writeCount _ => true
  | _ => false

/-- Only the pass after the connection test is here. -/
def pretests : Pc → Bool
  | .readConnect | .readError | .readSkipped | .readSuccess => true
  | _ => false

/-- What is left of a pass: of the leftovers nobody was counted, and the others of the target are
resolved. -/
structure Left (s : Test) (p : Pass) : Prop where
  phase : p.connection = s.pretesting
  leftovers : p.connection = true → (p.rest ++ s.order).Nodup ∧ ∀ id ∈ p.rest ++ s.order, id ∉ s.counted
  target : p.connection = false → ∀ id ∈ p.target, id ∈ p.rest ∨ (s.profiles id).status ≠ .untested

/-- The thread is at `pc` with the first profile that is left. -/
structure At (s : Test) (p : Pass) (id : Int) (pc : Pc) : Prop where
  left : s.Left { p with rest := id :: p.rest }
  pretests : pretests pc = true → p.connection = true
  uncounted : counts pc = true → id ∉ s.counted
  holds : holds (s.profiles id).status pc

def BatchOk (s : Test) : Batch → Prop
  | .free => True
  | .waiting _ _ _ | .results _ _ _ _ => s.pretesting = false
  | .pass p id pc => s.At p id pc

/-- **The progress of a test.**  Who was counted is resolved, and was counted once. -/
structure Progress (s : Test) : Prop where
  nodup : s.counted.Nodup
  resolved : ∀ id ∈ s.counted, (s.profiles id).status ≠ .untested
  order : s.pretesting = true → s.order.Nodup ∧ ∀ id ∈ s.order, id ∉ s.counted
  returned : ∀ target ∈ s.returned, ∀ id ∈ target, (s.profiles id).status ≠ .untested
  batch : s.BatchOk s.batch

variable {s s' : Test} {p : Pass} {pc : Pc}

theorem Progress.next (hnodup : s.counted.Nodup)
    (hresolved : ∀ id ∈ s.counted, (s.profiles id).status ≠ .untested)
    (hreturned : ∀ target ∈ s.returned, ∀ id ∈ target, (s.profiles id).status ≠ .untested) (hleft : s.Left p)
    (horder : s.pretesting = true → s.order.Nodup ∧ ∀ id ∈ s.order, id ∉ s.counted) : (s.next p).Progress := by
  unfold Test.next
  split
  · rename_i hrest
    refine ⟨hnodup, hresolved, horder, ?_, trivial⟩
    split
    · exact hreturned
    rename_i hc
    intro target ht
    rcases mem_cons.mp ht with rfl | ht
    · intro id hid
      refine (hleft.target (by simpa using hc) id hid).resolve_left ?_
      rw [hrest]
      simp
    · exact hreturned target ht
  rename_i id rest hrest
  refine ⟨hnodup, hresolved, horder, hreturned, ⟨⟨hleft.phase, ?_, ?_⟩, ?_, ?_, ?_⟩⟩
  · intro hc
    have := hleft.leftovers hc
    rwa [hrest] at this
  · intro hc x hx
    have := hleft.target hc x hx
    rwa [hrest] at this
  · dsimp only
    split
    · exact fun _ => ‹_›
    · exact nofun
  · dsimp only
    split <;> exact nofun
  · dsimp only
    split <;> trivial

variable {id : Int}

theorem nodup_count {counted : List Int} (h : counted.Nodup) (hid : id ∉ counted) : (counted ++ [id]).Nodup := by
  refine nodup_append.mpr ⟨h, by simp, fun a ha b hb heq => hid ?_⟩
  rw [← mem_singleton.mp hb, ← heq]
  exact ha

theorem At.done (h : s.At p id pc)
    (hid : p.connection = false → (s.profiles id).status ≠ .untested) : s.Left p := by
  refine ⟨h.left.phase, ?_, ?_⟩
  · intro hc
    obtain ⟨hnodup, hun⟩ := h.left.leftovers hc
    exact ⟨(nodup_cons.mp hnodup).2, fun x hx => hun x (.tail _ hx)⟩
  intro hc x hx
  rcases h.left.target hc x hx with hx | hx
  · rcases mem_cons.mp hx with rfl | hx
    · exact .inr (hid hc)
    · exact .inl hx
  · exact .inr hx

theorem Progress.goes (h : s.Progress) {pc' : Pc} (hat : s.At p id pc)
    (hpretests : pretests pc' = true → p.connection = true)
    (huncounted : counts pc' = true → id ∉ s.counted) (hholds : holds (s.profiles id).status pc') :
    (s.goes p id pc').Progress :=
  ⟨h.nodup, h.resolved, h.order, h.returned,
   ⟨⟨hat.left.phase, hat.left.leftovers, hat.left.target⟩, hpretests, huncounted, hholds⟩⟩

/-- A field of an unresolved profile is written, or the status or the text of the mark. -/
theorem Progress.write (h : s.Progress) {pc' : Pc} (hat : s.At p id pc) (ent : Profile)
    (hkept : (s.profiles id).status ≠ .untested → ent.status ≠ .untested) (hpretests : pretests pc' = false)
    (huncounted : counts pc' = true → id ∉ s.counted) (hholds : holds ent.status pc') :
    ((s.setProfile id ent).goes p id pc').Progress := by
  have hstatus : ∀ x, (s.profiles x).status ≠ .untested → ((s.setProfile id ent).profiles x).status ≠ .untested := by
    intro x hx
    unfold setProfile
    dsimp only
    by_cases hxid : x = id
    · subst hxid
      rw [update_self]
      exact hkept hx
    · rw [update_of_ne hxid]
      exact hx
  refine ⟨h.nodup, fun x hx => hstatus x (h.resolved x hx), h.order,
    fun t ht x hx => hstatus x (h.returned t ht x hx), ?_⟩
  refine ⟨⟨hat.left.phase, hat.left.leftovers, ?_⟩, fun hp => ?_, huncounted, ?_⟩
  · intro hc x hx
    rcases hat.left.target hc x hx with hx | hx
    · exact .inl hx
    · exact .inr (hstatus x hx)
  · rw [hpretests] at hp
    exact absurd hp nofun
  · change holds ((update s.profiles id ent) id).status pc'
    rw [update_self]
    exact hholds

/-- **The batch thread** keeps the progress with every read and write. -/
theorem Progress.passStep (h : s.Progress) (hat : s.At p id pc)
    (hnonneg : 0 ≤ (s.profiles id).connectTimeMs) : (s.passStep p id pc).Progress := by
  have hnext (hid : p.connection = false → (s.profiles id).status ≠ .untested) : (s.next p).Progress :=
    Progress.next h.nodup h.resolved h.returned (hat.done hid) h.order
  have hmark {status : Status} (hstatus : (s.profiles id).status = status) (hne : status ≠ .untested) :
      (s.profiles id).status ≠ .untested := by
    rw [hstatus]
    exact hne
  have huntested (h1 : (s.profiles id).status ≠ .success) (h2 : (s.profiles id).status ≠ .skipped)
      (h3 : (s.profiles id).status ≠ .error) : (s.profiles id).status = .untested := by
    revert h1 h2 h3
    cases (s.profiles id).status <;> simp
  have hmarks (hun : (s.profiles id).status = .untested) :
      (s.goes p id (if p.skip then .writeRx else .readNegative)).Progress := by
    refine h.goes hat ?_ ?_ ?_
    · split <;> exact nofun
    · split <;> exact nofun
    · split <;> exact hun
  have hread := hat.holds
  have hpre := hat.pretests
  unfold Test.passStep
  cases pc with
  | readConnect =>
    dsimp only
    split
    · refine hnext fun hc => ?_
      rw [hpre rfl] at hc
      exact absurd hc nofun
    · exact h.goes hat (fun _ => hpre rfl) nofun trivial
  | readError =>
    dsimp only
    split
    · exact hnext fun _ => hmark ‹_› (by decide)
    · exact h.goes hat (fun _ => hpre rfl) nofun ‹_›
  | readSkipped =>
    dsimp only
    split
    · rename_i hs
      exact h.goes hat nofun (fun _ => (hat.left.leftovers (hpre rfl)).2 id (.head _)) (hmark hs (by decide))
    · exact h.goes hat (fun _ => hpre rfl) nofun ⟨hread, ‹_›⟩
  | readSuccess =>
    dsimp only
    split
    · exact hnext fun _ => hmark ‹_› (by decide)
    · exact hmarks (huntested ‹_› hread.2 hread.1)
  | checkSuccess last =>
    dsimp only
    split
    · exact hnext fun _ => hmark ‹_› (by decide)
    · exact h.goes hat nofun nofun fun _ => ‹_›
  | checkSkipped last =>
    dsimp only
    split
    · exact hnext fun _ => hmark ‹_› (by decide)
    · exact h.goes hat nofun nofun fun hl => ⟨hread hl, ‹_›⟩
  | checkError last =>
    dsimp only
    split
    · exact hnext fun _ => hmark ‹_› (by decide)
    split
    · rename_i hl
      exact hmarks (huntested (hread hl).1 (hread hl).2 ‹_›)
    · exact h.goes hat nofun nofun trivial
  | readNegative =>
    dsimp only
    rw [if_neg (by omega)]
    exact h.goes hat nofun nofun hread
  | writeConnect => exact hread.elim
  | writeRx => exact h.write hat _ (fun hne => hne) rfl nofun hread
  | writeStatus =>
    refine h.write hat _ (fun _ => ?_) rfl (fun _ hc => h.resolved id hc hread) ?_
    · dsimp only
      split <;> decide
    · dsimp only [holds]
      split <;> decide
  | writeSpeed => exact h.write hat _ (fun hne => hne) rfl (fun _ => hat.uncounted rfl) hread
  | readCount => exact h.goes hat nofun (fun _ => hat.uncounted rfl) hread
  | writeCount seen =>
    have hun := hat.uncounted rfl
    have hdone := hat.done fun _ => hread
    have hapart (hc : p.connection = true) : ∀ x ∈ p.rest ++ s.order, x ∉ s.counted ++ [id] := by
      intro x hx hmem
      obtain ⟨hnodup, hout⟩ := hat.left.leftovers hc
      rcases mem_append.mp hmem with hmem | hmem
      · exact hout x (.tail _ hx) hmem
      rw [mem_singleton] at hmem
      subst hmem
      exact (nodup_cons.mp hnodup).1 hx
    refine Progress.next (nodup_count h.nodup hun) ?_ h.returned
      ⟨hdone.phase, fun hc => ⟨(hdone.leftovers hc).1, hapart hc⟩, hdone.target⟩ ?_
    · intro x hx
      rcases mem_append.mp hx with hx | hx
      · exact h.resolved x hx
      · rw [mem_singleton.mp hx]
        exact hread
    · intro hp
      refine ⟨(h.order hp).1, fun x hx => hapart (hat.left.phase.trans hp) x (mem_append_right _ hx)⟩

/-! ## A result arrives -/

/-- What a careful result does to the test. -/
structure Arrives (s s' : Test) (id : Int) : Prop where
  batch : s'.batch = s.batch
  order : s'.order = s.order
  pretesting : s'.pretesting = s.pretesting
  returned : s'.returned = s.returned
  others : ∀ x, x ≠ id → s'.profiles x = s.profiles x
  kept : (s.profiles id).Kept (s'.profiles id)
  unmarked : (s.profiles id).status = .untested → (s'.profiles id).status ≠ .untested → s.marking id = false
  counted : s'.counted = s.counted ∨
    s.pretesting = false ∧ (s.profiles id).status = .untested ∧ (s'.profiles id).status ≠ .untested ∧
      s'.counted = s.counted ++ [id]

theorem Arrives.kept_all (h : s.Arrives s' id) (x : Int) : (s.profiles x).Kept (s'.profiles x) := by
  by_cases hx : x = id
  · subst hx
    exact h.kept
  · rw [h.others x hx]
    exact Kept.refl _

theorem Arrives.resolved (h : s.Arrives s' id) {x : Int} (hx : (s.profiles x).status ≠ .untested) :
    (s'.profiles x).status ≠ .untested := by
  rw [(h.kept_all x hx).1]
  exact hx

theorem holds_of_unmarked {status status' : Status} (h : holds status pc) (hun : status = .untested)
    (hpc : pc.marks = false) : holds status' pc := by
  subst hun
  cases pc with
  | checkSkipped last | checkError last =>
    intro hl
    rw [hl] at hpc
    exact absurd hpc nofun
  | readConnect | readError | checkSuccess => trivial
  | writeSpeed | readCount | writeCount => exact absurd rfl h
  | readSkipped | readSuccess | readNegative | writeConnect | writeRx | writeStatus => exact absurd hpc nofun

/-- What the thread has read still holds when a careful result arrives. -/
theorem At.arrives {id current : Int} (h : s.Arrives s' id) (hb : s.batch = .pass p current pc)
    (hat : s.At p current pc) : s'.At p current pc := by
  refine ⟨⟨hat.left.phase.trans h.pretesting.symm, ?_, ?_⟩, hat.pretests, ?_, ?_⟩
  · intro hc
    rcases h.counted with hcount | ⟨hp, _⟩
    · rw [hcount, h.order]
      exact hat.left.leftovers hc
    have := hat.left.phase.symm.trans hc
    rw [hp] at this
    exact absurd this nofun
  · intro hc x hx
    exact (hat.left.target hc x hx).imp_right h.resolved
  · intro hcounts hmem
    rcases h.counted with hcount | ⟨_, hun, _, hcount⟩
    · rw [hcount] at hmem
      exact hat.uncounted hcounts hmem
    rw [hcount] at hmem
    rcases mem_append.mp hmem with hmem | hmem
    · exact hat.uncounted hcounts hmem
    rw [mem_singleton] at hmem
    subst hmem
    have hread := hat.holds
    rw [hun] at hread
    cases pc <;> first | exact hread rfl | exact absurd hcounts nofun
  · by_cases hc : current = id
    · subst hc
      by_cases hun : (s.profiles current).status = .untested
      · by_cases hun' : (s'.profiles current).status = .untested
        · rw [hun', ← hun]
          exact hat.holds
        refine holds_of_unmarked hat.holds hun ?_
        have := h.unmarked hun hun'
        unfold marking at this
        rw [hb] at this
        simpa using this
      · rw [(h.kept hun).1]
        exact hat.holds
    · rw [h.others current hc]
      exact hat.holds

/-- **A careful result** keeps the progress. -/
theorem Progress.arrives (hs : s.Progress) (h : s.Arrives s' id) : s'.Progress := by
  refine ⟨?_, ?_, ?_, ?_, ?_⟩
  · rcases h.counted with hcount | ⟨_, hun, _, hcount⟩
    · rw [hcount]
      exact hs.nodup
    · rw [hcount]
      exact nodup_count hs.nodup fun hmem => hs.resolved id hmem hun
  · intro x hx
    rcases h.counted with hcount | ⟨_, _, hres, hcount⟩
    · rw [hcount] at hx
      exact h.resolved (hs.resolved x hx)
    rw [hcount] at hx
    rcases mem_append.mp hx with hx | hx
    · exact h.resolved (hs.resolved x hx)
    · rw [mem_singleton.mp hx]
      exact hres
  · rw [h.pretesting, h.order]
    intro hp
    rcases h.counted with hcount | ⟨hp', _⟩
    · rw [hcount]
      exact hs.order hp
    · rw [hp] at hp'
      exact absurd hp' nofun
  · rw [h.returned]
    intro t ht x hx
    exact h.resolved (hs.returned t ht x hx)
  · rw [h.batch]
    have hbatch := hs.batch
    cases hb : s.batch with
    | free => trivial
    | waiting target timeoutMs defaultTimeoutMs =>
      rw [hb] at hbatch
      exact h.pretesting.trans hbatch
    | results target timeoutMs defaultTimeoutMs skip =>
      rw [hb] at hbatch
      exact h.pretesting.trans hbatch
    | pass p current pc =>
      rw [hb] at hbatch
      exact At.arrives h hb hbatch

section
variable (parseSpeedMbps : String → Rat) (fallShort : Bool)

@[simp] theorem setProfile_self (s : Test) (id : Int) (ent : Profile) : (s.setProfile id ent).profiles id = ent := by
  unfold setProfile
  exact update_self id ent s.profiles

theorem setProfile_of_ne (s : Test) {id x : Int} (ent : Profile) (hx : x ≠ id) :
    (s.setProfile id ent).profiles x = s.profiles x := by
  exact update_of_ne hx ent s.profiles

theorem connection_arrives (s : Test) (id limitMs defaultTimeoutMs : Int) (res : URLTestResp)
    (hc : FailsConnection (s.profiles id) res → s.marking id = false) :
    s.Arrives (s.connection fallShort id limitMs defaultTimeoutMs res) id := by
  have hself : (s.connection fallShort id limitMs defaultTimeoutMs res).profiles id =
      (applyConnectionResult fallShort limitMs defaultTimeoutMs (s.profiles id) res).1 := setProfile_self s id _
  refine ⟨rfl, rfl, rfl, rfl, fun x hx => setProfile_of_ne s _ hx, ?_, ?_, .inl rfl⟩
  · rw [hself]
    intro hres
    rcases applyConnectionResult_cases fallShort limitMs defaultTimeoutMs (s.profiles id) res with ⟨_, h⟩ | ⟨hf, _⟩ | h
    · rw [h]
      exact ⟨rfl, rfl, rfl⟩
    · exact absurd hf.2.2.1 hres
    · rw [h]
      exact ⟨rfl, rfl, rfl⟩
  · rw [hself]
    intro hun hres
    rcases applyConnectionResult_cases fallShort limitMs defaultTimeoutMs (s.profiles id) res with ⟨_, h⟩ | ⟨hf, _⟩ | h
    · rw [h] at hres
      exact absurd hun hres
    · exact hc hf
    · rw [h] at hres
      exact absurd hun hres

theorem download_arrives (s : Test) (id limitMs defaultTimeoutMs : Int) (res : SpeedTestResult)
    (hp : s.pretesting = false)
    (hc : ResolvesDownload (s.profiles id) res → s.marking id = false) :
    s.Arrives (s.download parseSpeedMbps fallShort id limitMs defaultTimeoutMs res) id := by
  generalize ha : applyDownloadResult parseSpeedMbps fallShort limitMs defaultTimeoutMs (s.profiles id) res = a
  have hself : (s.download parseSpeedMbps fallShort id limitMs defaultTimeoutMs res).profiles id = a.profile := by
    rw [← ha]
    exact setProfile_self s id _
  have hcounted : (s.download parseSpeedMbps fallShort id limitMs defaultTimeoutMs res).counted =
      if a.counted.isSome then s.counted ++ [id] else s.counted := by
    rw [← ha]
    rfl
  have hcases := (applyDownloadResult_cases fallShort limitMs defaultTimeoutMs (s.profiles id) parseSpeedMbps res ha).2
  have hsplit : (a.profile = s.profiles id ∧ a.counted = none) ∨
      (ResolvesDownload (s.profiles id) res ∧ a.counted.isSome ∧ a.profile.status ≠ .untested) := by
    rcases hcases with h | ⟨hr, hcount, h | h⟩ | ⟨hr, hcount, -, h⟩
    · exact .inl h
    · exact .inr ⟨hr, by rw [hcount]; rfl, by rw [h]; exact nofun⟩
    · exact .inr ⟨hr, by rw [hcount]; rfl, by rw [h]; exact nofun⟩
    · exact .inr ⟨hr.1, by rw [hcount]; rfl, by rw [h]; exact nofun⟩
  refine ⟨rfl, rfl, rfl, rfl, fun x hx => setProfile_of_ne s _ hx, ?_, ?_, ?_⟩
  · rw [hself]
    rcases hsplit with ⟨h, _⟩ | ⟨hr, _⟩
    · rw [h]
      exact Kept.refl _
    · exact fun hres => absurd hr.2 hres
  · rw [hself]
    intro hun hres
    rcases hsplit with ⟨h, _⟩ | ⟨hr, _⟩
    · rw [h] at hres
      exact absurd hun hres
    · exact hc hr
  · rw [hself, hcounted]
    rcases hsplit with ⟨_, h⟩ | ⟨hr, hcount, hres⟩
    · rw [h]
      exact .inl rfl
    · rw [if_pos hcount]
      exact .inr ⟨hp, hr.2, hres, rfl⟩

end

/-! ## Times -/

/-- **The accepted times.**  They are among those that the bests are the least of. -/
structure Times (s : Test) : Prop where
  nonneg : ∀ id, 0 ≤ (s.profiles id).connectTimeMs
  connect : ∀ id, 0 < (s.profiles id).connectTimeMs → (s.profiles id).connectTimeMs ∈ s.connections
  leastConnection : Least s.bestConnectionMs s.connections
  leastDownload : Least s.bestDownloadMs s.downloads

/-- From one state of a test to a later one. -/
structure Advances (s s' : Test) : Prop where
  kept : ∀ id, s.finishing id = false → (s.profiles id).Kept (s'.profiles id)
  finished : ∀ id, (s.profiles id).status ≠ .untested → s.finishing id = false → s'.finishing id = false
  faster : ∀ id, (s.profiles id).Faster (s'.profiles id)
  bestConnection : Falls s.bestConnectionMs s'.bestConnectionMs
  bestDownload : Falls s.bestDownloadMs s'.bestDownloadMs

/-- The profiles, the times and the bests stay as they are. -/
structure Still (s s' : Test) : Prop where
  profiles : s'.profiles = s.profiles
  bestConnection : s'.bestConnectionMs = s.bestConnectionMs
  bestDownload : s'.bestDownloadMs = s.bestDownloadMs
  connections : s'.connections = s.connections
  downloads : s'.downloads = s.downloads

open Faster

theorem Still.advances (h : s.Still s')
    (hf : ∀ id, (s.profiles id).status ≠ .untested → s.finishing id = false →
      s'.finishing id = false) : s.Advances s' := by
  refine ⟨fun id _ => ?_, hf, fun id => ?_, ?_, ?_⟩
  · rw [h.profiles]
    exact Kept.refl _
  · rw [h.profiles]
    exact refl _
  · rw [h.bestConnection]
    exact Falls.refl _
  · rw [h.bestDownload]
    exact Falls.refl _

theorem Times.still (hs : s.Times) (h : s.Still s') : s'.Times := by
  refine ⟨?_, ?_, ?_, ?_⟩
  · rw [h.profiles]
    exact hs.nonneg
  · rw [h.profiles, h.connections]
    exact hs.connect
  · rw [h.bestConnection, h.connections]
    exact hs.leastConnection
  · rw [h.bestDownload, h.downloads]
    exact hs.leastDownload

theorem next_still (s : Test) (p : Pass) : s.Still (s.next p) := by
  unfold next
  split <;> exact ⟨rfl, rfl, rfl, rfl, rfl⟩

theorem finishing_next (s : Test) (p : Pass) (id : Int) : (s.next p).finishing id = false := by
  unfold next
  split
  · rfl
  · cases p.connection <;> rfl

theorem next_advances (s : Test) (p : Pass) : s.Advances (s.next p) :=
  (next_still s p).advances fun id _ _ => finishing_next s p id

theorem goes_advances (s : Test) (p : Pass) (id : Int) (hpc : pc ≠ .writeSpeed) : s.Advances (s.goes p id pc) := by
  refine Still.advances ⟨rfl, rfl, rfl, rfl, rfl⟩ fun x _ _ => ?_
  cases pc <;> first | rfl | exact absurd rfl hpc

theorem write_advances (s : Test) (p : Pass) (id : Int) (ent : Profile)
    (hkept : s.finishing id = false → (s.profiles id).Kept ent) (hfaster : (s.profiles id).Faster ent)
    (hpc : pc = .writeSpeed → (s.profiles id).status = .untested) : s.Advances ((s.setProfile id ent).goes p id pc) := by
  refine ⟨fun x hx => ?_, fun x hx _ => ?_, fun x => ?_, Falls.refl _, Falls.refl _⟩
  · change (s.profiles x).Kept ((s.setProfile id ent).profiles x)
    by_cases hxid : x = id
    · subst hxid
      rw [setProfile_self]
      exact hkept hx
    · rw [setProfile_of_ne s ent hxid]
      exact Kept.refl _
  · unfold goes finishing
    cases pc <;> first | rfl | skip
    by_contra hne
    have hid : id = x := by simpa using hne
    subst hid
    exact hx (hpc rfl)
  · change (s.profiles x).Faster ((s.setProfile id ent).profiles x)
    by_cases hxid : x = id
    · subst hxid
      rw [setProfile_self]
      exact hfaster
    · rw [setProfile_of_ne s ent hxid]
      exact refl _

theorem Times.write (hs : s.Times) (p : Pass) (id : Int) (ent : Profile) (pc : Pc)
    (hc : ent.connectTimeMs = (s.profiles id).connectTimeMs) : ((s.setProfile id ent).goes p id pc).Times := by
  have hsame : ∀ x, ((s.setProfile id ent).profiles x).connectTimeMs = (s.profiles x).connectTimeMs := by
    intro x
    by_cases hx : x = id
    · subst hx
      rw [setProfile_self, hc]
    · rw [setProfile_of_ne s ent hx]
  refine ⟨fun x => ?_, fun x hpos => ?_, hs.leastConnection, hs.leastDownload⟩
  · change 0 ≤ ((s.setProfile id ent).profiles x).connectTimeMs
    rw [hsame]
    exact hs.nonneg x
  change 0 < ((s.setProfile id ent).profiles x).connectTimeMs at hpos
  change ((s.setProfile id ent).profiles x).connectTimeMs ∈ s.connections
  rw [hsame] at hpos ⊢
  exact hs.connect x hpos

/-- The thread goes on to the next profile, or reads, or is at one of its writes. -/
theorem passStep_cases (s : Test) (p : Pass) (id : Int) (pc : Pc) :
    s.passStep p id pc = s.next p ∨
    (∃ pc', s.passStep p id pc = s.goes p id pc' ∧ pc' ≠ .writeSpeed ∧ ∀ seen,
      pc' = .writeCount seen → seen = s.skipped) ∨
    pc = .writeConnect ∨ pc = .writeRx ∨ pc = .writeStatus ∨ pc = .writeSpeed ∨ ∃ seen, pc = .writeCount seen := by
  cases pc with
  | writeConnect | writeRx | writeStatus | writeSpeed | writeCount => simp
  | readCount => exact .inr (.inl ⟨_, rfl, nofun, fun _ h => (Pc.writeCount.inj h).symm⟩)
  | _ =>
    simp only [passStep]
    repeat' split
    all_goals first | exact .inl rfl | exact .inr (.inl ⟨_, rfl, nofun, nofun⟩)

/-- **The batch thread** slows nothing down, and resolves only what was untested. -/
theorem passStep_advances (ht : s.Times) (hat : s.At p id pc)
    (hb : s.batch = .pass p id pc) : s.Advances (s.passStep p id pc) ∧ (s.passStep p id pc).Times := by
  have hread := hat.holds
  rcases passStep_cases s p id pc with h | ⟨pc', h, hspeed, -⟩ | rfl | rfl | rfl | rfl | ⟨seen, rfl⟩
  · rw [h]
    exact ⟨next_advances s p, ht.still (next_still s p)⟩
  · rw [h]
    exact ⟨goes_advances s p id hspeed, ht.still ⟨rfl, rfl, rfl, rfl, rfl⟩⟩
  · exact hread.elim
  · exact ⟨write_advances s p id _ (fun _ hne => absurd hread hne) (refl _) nofun, ht.write p id _ _ rfl⟩
  · exact ⟨write_advances s p id _ (fun _ hne => absurd hread hne) (refl _) fun _ => hread, ht.write p id _ _ rfl⟩
  · refine ⟨write_advances s p id _ (fun hf => ?_) (refl _) nofun, ht.write p id _ _ rfl⟩
    unfold finishing at hf
    rw [hb] at hf
    simp at hf
  · have hstill : s.Still (next { s with skipped := seen + 1, counted := s.counted ++ [id] } p) := by
      have h := next_still { s with skipped := seen + 1, counted := s.counted ++ [id] } p
      exact ⟨h.profiles, h.bestConnection, h.bestDownload, h.connections, h.downloads⟩
    exact ⟨hstill.advances fun x _ _ => finishing_next _ p x, ht.still hstill⟩

theorem Arrives.finishing (h : s.Arrives s' id) (x : Int) : s'.finishing x = s.finishing x := by
  unfold Test.finishing
  rw [h.batch]

theorem Arrives.advances (h : s.Arrives s' id) (hfaster : (s.profiles id).Faster (s'.profiles id))
    (hc : Falls s.bestConnectionMs s'.bestConnectionMs)
    (hd : Falls s.bestDownloadMs s'.bestDownloadMs) : s.Advances s' := by
  refine ⟨fun x _ => h.kept_all x, fun x _ hx => ?_, fun x => ?_, hc, hd⟩
  · rw [h.finishing]
    exact hx
  by_cases hx : x = id
  · subst hx
    exact hfaster
  · rw [h.others x hx]
    exact refl _

theorem Arrives.times (h : s.Arrives s' id) (hs : s.Times)
    (hsub : ∀ t ∈ s.connections, t ∈ s'.connections) (hnonneg : 0 ≤ (s'.profiles id).connectTimeMs)
    (hmem : 0 < (s'.profiles id).connectTimeMs →
      (s'.profiles id).connectTimeMs = (s.profiles id).connectTimeMs ∨ (s'.profiles id).connectTimeMs ∈ s'.connections)
    (hc : Least s'.bestConnectionMs s'.connections) (hd : Least s'.bestDownloadMs s'.downloads) : s'.Times := by
  refine ⟨fun x => ?_, fun x hpos => ?_, hc, hd⟩
  · by_cases hx : x = id
    · subst hx
      exact hnonneg
    · rw [h.others x hx]
      exact hs.nonneg x
  · by_cases hx : x = id
    · subst hx
      rcases hmem hpos with heq | hm
      · rw [heq] at hpos ⊢
        exact hsub _ (hs.connect x hpos)
      · exact hm
    · rw [h.others x hx] at hpos ⊢
      exact hsub _ (hs.connect x hpos)

section
variable (parseSpeedMbps : String → Rat) (fallShort : Bool)

/-- **A careful connection result** notes the time that it accepts. -/
theorem connection_advances {s : Test} (hs : s.Times) (id limitMs defaultTimeoutMs : Int) (res : URLTestResp)
    (hf : FailsConnection (s.profiles id) res → s.marking id = false)
    (ha : AcceptsConnection (s.profiles id) res → s.pretesting = true) :
    s.Advances (s.connection fallShort id limitMs defaultTimeoutMs res) ∧
      (s.connection fallShort id limitMs defaultTimeoutMs res).Times := by
  have harrives := connection_arrives fallShort s id limitMs defaultTimeoutMs res hf
  have hresult := applyConnectionResult_cases fallShort limitMs defaultTimeoutMs (s.profiles id) res
  generalize ht : s.connection fallShort id limitMs defaultTimeoutMs res = t at harrives
  generalize happlied : applyConnectionResult fallShort limitMs defaultTimeoutMs (s.profiles id) res = applied at hresult
  have hself : t.profiles id = applied.1 := by
    rw [← ht, ← happlied]
    exact setProfile_self s id _
  have hconn : t.connections = s.connections ++ applied.2.toList := by
    rw [← ht, ← happlied]
    rfl
  have hbest : t.bestConnectionMs =
      if s.pretesting then applied.2.toList.foldl noteFasterMs s.bestConnectionMs else s.bestConnectionMs := by
    rw [← ht, ← happlied]
    rfl
  have hdown : Least t.bestDownloadMs t.downloads := ht ▸ hs.leastDownload
  have hbestDown : t.bestDownloadMs = s.bestDownloadMs := ht ▸ rfl
  have hsub : ∀ x ∈ s.connections, x ∈ t.connections := fun x hx => hconn ▸ mem_append_left _ hx
  have hfalls : Falls s.bestConnectionMs t.bestConnectionMs := by
    rw [hbest]
    split
    · exact foldl_noteFasterMs_le _
    · exact Falls.refl _
  have hstays : Falls s.bestDownloadMs t.bestDownloadMs := hbestDown ▸ Falls.refl _
  have hnonneg := hs.nonneg id
  -- without a time the connect time and the bests stay
  have hnone (h2 : applied.2 = none) (h1 : applied.1.connectTimeMs = (s.profiles id).connectTimeMs) : s.Advances t ∧ t.Times := by
    constructor
    · refine harrives.advances ?_ hfalls hstays
      rw [hself]
      unfold Faster
      rw [h1]
      exact ⟨Falls.refl _, fun h => h⟩
    · refine harrives.times hs hsub ?_ (fun _ => .inl ?_) ?_ hdown
      · rw [hself, h1]
        exact hnonneg
      · rw [hself, h1]
      · rw [hbest, hconn, h2]
        simpa using hs.leastConnection
  rcases hresult with ⟨hacc, rfl⟩ | ⟨_, rfl | rfl⟩ | rfl
  · have hpre := ha hacc
    obtain ⟨_, _, hpos, htime⟩ := hacc
    constructor
    · refine harrives.advances ?_ hfalls hstays
      rw [hself]
      refine ⟨fun hp => ?_, fun _ => le_of_lt hpos⟩
      dsimp only
      rcases htime with htime | htime <;> omega
    · refine harrives.times hs hsub ?_ (fun _ => .inr ?_) ?_ hdown
      · rw [hself]
        exact le_of_lt hpos
      · rw [hself, hconn]
        simp
      · rw [hbest, hconn, if_pos hpre]
        exact hs.leastConnection.note hpos
  · exact hnone rfl (markPerformanceError_connect hnonneg)
  · exact hnone rfl (markPerformanceSkipped_connect _)
  · exact hnone rfl rfl

/-- **A careful download result** notes its times, and the time that it is applied with. -/
theorem download_advances {s : Test} (hs : s.Times) (id limitMs defaultTimeoutMs : Int) (res : SpeedTestResult)
    (hp : s.pretesting = false) (hr : ResolvesDownload (s.profiles id) res → s.marking id = false)
    (hprompt : Prompt parseSpeedMbps (s.profiles id) res) :
    s.Advances (s.download parseSpeedMbps fallShort id limitMs defaultTimeoutMs res) ∧
      (s.download parseSpeedMbps fallShort id limitMs defaultTimeoutMs res).Times := by
  have harrives := download_arrives parseSpeedMbps fallShort s id limitMs defaultTimeoutMs res hp hr
  generalize hafter : s.download parseSpeedMbps fallShort id limitMs defaultTimeoutMs res = after at harrives
  generalize ha : applyDownloadResult parseSpeedMbps fallShort limitMs defaultTimeoutMs (s.profiles id) res = a
  obtain ⟨hposs, hcases⟩ := applyDownloadResult_cases fallShort limitMs defaultTimeoutMs (s.profiles id) parseSpeedMbps res ha
  have hself : after.profiles id = a.profile := by
    rw [← hafter, ← ha]
    exact setProfile_self s id _
  have hconn : after.connections = s.connections ++ a.connection := by
    rw [← hafter, ← ha]
    rfl
  have hleast : Least after.bestConnectionMs after.connections := by
    have h := hs.leastConnection.notes a.connection
    rw [filter_eq_self.mpr fun t ht => by simpa using hposs t ht] at h
    subst ha hafter
    exact h
  have hdown : Least after.bestDownloadMs after.downloads := hafter ▸ hs.leastDownload.notes _
  have hfaster : (s.profiles id).Faster a.profile ∧ 0 ≤ a.profile.connectTimeMs ∧
      (a.profile.connectTimeMs = (s.profiles id).connectTimeMs ∨ a.profile.connectTimeMs ∈ a.connection) := by
    have hnonneg := hs.nonneg id
    rcases hcases with ⟨h, _⟩ | ⟨_, _, h | h⟩ | ⟨hsucc, -, hmem, h⟩
    · rw [h]
      exact ⟨refl _, hnonneg, .inl rfl⟩
    · have hsame := markPerformanceError_connect hnonneg
      rw [h]
      unfold Faster
      rw [hsame]
      exact ⟨⟨Falls.refl _, fun h => h⟩, hnonneg, .inl rfl⟩
    · rw [h]
      exact ⟨refl _, hnonneg, .inl rfl⟩
    have hpos := hposs _ hmem
    have htime : a.profile.connectTimeMs = if 0 < res.latency then res.latency else (s.profiles id).connectTimeMs := by
      rw [h]
      exact max_eq_right (by omega)
    rw [← htime] at hmem hpos
    refine ⟨⟨fun hc => ⟨hpos, ?_⟩, fun _ => by omega⟩, by omega, .inr hmem⟩
    rw [htime]
    split
    · exact hprompt hsucc hc
    · exact le_refl _
  constructor
  · refine harrives.advances ?_ (hafter ▸ foldl_noteFasterMs_le _) (hafter ▸ foldl_noteFasterMs_le _)
    rw [hself]
    exact hfaster.1
  · refine harrives.times hs (fun t ht => ?_) ?_ (fun _ => ?_) hleast hdown
    · rw [hconn]
      exact mem_append_left _ ht
    · rw [hself]
      exact hfaster.2.1
    · rw [hself, hconn]
      exact hfaster.2.2.imp_right (mem_append_right _)

end

/-! ## Runs -/

structure Inv (s : Test) : Prop where
  progress : s.Progress
  times : s.Times

theorem start_inv {order : List Int} (h : order.Nodup) (pretesting : Bool) (best : Int) :
    (start order pretesting best).Inv := by
  refine ⟨⟨nodup_nil, nofun, fun _ => ⟨h, nofun⟩, nofun, trivial⟩, ⟨fun _ => le_refl _, nofun, ?_, ?_⟩⟩
  · unfold start
    dsimp only
    split
    · refine ⟨?_, ?_, fun _ => by simp, fun _ => by omega⟩
      · intro t ht
        rw [mem_singleton] at ht
        omega
      · intro t ht
        rw [mem_singleton] at ht
        omega
    · exact ⟨nofun, nofun, fun _ => by omega, fun _ => rfl⟩
  · exact ⟨nofun, nofun, fun h => absurd h (lt_irrefl 0), fun _ => rfl⟩

theorem Progress.withBatch (h : s.Progress) {batch : Batch} (hb : BatchOk { s with batch := batch } batch) :
    Progress { s with batch := batch } := ⟨h.nodup, h.resolved, h.order, h.returned, hb⟩

section
variable (parseSpeedMbps : String → Rat) (fallShort : Bool)

theorem Inv.pass {s : Test} (h : s.Inv) (hp : s.pretesting = false) (answered skip : Bool) (target : List Int) :
    (s.next ⟨false, answered, skip, target, target⟩).Inv ∧
      s.Advances (s.next ⟨false, answered, skip, target, target⟩) := by
  refine ⟨⟨?_, h.times.still (next_still s _)⟩, next_advances s _⟩
  exact Progress.next h.progress.nodup h.progress.resolved h.progress.returned
    ⟨hp.symm, nofun, fun _ x hx => .inl hx⟩ h.progress.order

/-- **One careful event** keeps the invariant, and the test advances. -/
theorem Inv.step {s : Test} (h : s.Inv) (e : Event) (hc : Careful parseSpeedMbps s e) :
    (s.step parseSpeedMbps fallShort e).Inv ∧ s.Advances (s.step parseSpeedMbps fallShort e) := by
  have hprog := h.progress
  have hbatch := hprog.batch
  have hrefl : s.Inv ∧ s.Advances s := ⟨h, Still.advances ⟨rfl, rfl, rfl, rfl, rfl⟩ fun _ _ hf => hf⟩
  unfold Test.step
  cases e with
  | connection id limitMs defaultTimeoutMs res =>
    obtain ⟨hadv, ht⟩ := connection_advances fallShort h.times id limitMs defaultTimeoutMs res hc.1 hc.2
    exact ⟨⟨hprog.arrives (connection_arrives fallShort s id limitMs defaultTimeoutMs res hc.1), ht⟩, hadv⟩
  | download id limitMs defaultTimeoutMs res =>
    dsimp only
    split
    · exact hrefl
    rename_i hp
    have hp : s.pretesting = false := by simpa using hp
    obtain ⟨hr, hprompt⟩ := hc hp
    obtain ⟨hadv, ht⟩ := download_advances parseSpeedMbps fallShort h.times id limitMs defaultTimeoutMs res hp hr hprompt
    exact ⟨⟨hprog.arrives (download_arrives parseSpeedMbps fallShort s id limitMs defaultTimeoutMs res hp hr), ht⟩, hadv⟩
  | leftovers chunk =>
    dsimp only
    split
    · rename_i hfree
      have hstill : s.Still (next { s with order := s.order.drop chunk } ⟨true, true, fallShort,
        s.order.take chunk, s.order.take chunk⟩) := by
        have hn := next_still { s with order := s.order.drop chunk } ⟨true, true, fallShort,
          s.order.take chunk, s.order.take chunk⟩
        exact ⟨hn.profiles, hn.bestConnection, hn.bestDownload, hn.connections, hn.downloads⟩
      refine ⟨⟨?_, h.times.still hstill⟩, hstill.advances fun x _ _ => finishing_next _ _ x⟩
      obtain ⟨hnodup, hout⟩ := hprog.order hfree.1
      refine Progress.next hprog.nodup hprog.resolved hprog.returned ⟨hfree.1.symm, fun _ => ?_, nofun⟩ fun _ => ?_
      · dsimp only
        rw [take_append_drop]
        exact ⟨hnodup, hout⟩
      · exact ⟨hnodup.sublist (drop_sublist chunk s.order), fun x hx => hout x (mem_of_mem_drop hx)⟩
    · exact hrefl
  | pretestReturns =>
    dsimp only
    split
    · rename_i hfree
      refine ⟨⟨⟨hprog.nodup, hprog.resolved, nofun, hprog.returned, ?_⟩, h.times.still ⟨rfl, rfl, rfl, rfl, rfl⟩⟩,
        Still.advances ⟨rfl, rfl, rfl, rfl, rfl⟩ fun _ _ hf => hf⟩
      rw [hfree.2.1]
      trivial
    · exact hrefl
  | survivor id =>
    dsimp only
    split
    · exact hrefl
    · rw [h.times.leastConnection.known (h.times.connect id)]
      exact hrefl
  | runDownload target timeoutMs defaultTimeoutMs =>
    dsimp only
    split
    · rename_i hfree
      exact ⟨⟨hprog.withBatch (by simpa [BatchOk] using hfree.1), h.times.still ⟨rfl, rfl, rfl, rfl, rfl⟩⟩,
        Still.advances ⟨rfl, rfl, rfl, rfl, rfl⟩ fun _ _ _ => rfl⟩
    · exact hrefl
  | answer rpcOK coreError =>
    unfold Test.answer
    dsimp only
    split
    · rename_i target timeoutMs defaultTimeoutMs hb
      rw [hb] at hbatch
      split
      · exact ⟨⟨hprog.withBatch hbatch, h.times.still ⟨rfl, rfl, rfl, rfl, rfl⟩⟩,
          Still.advances ⟨rfl, rfl, rfl, rfl, rfl⟩ fun _ _ _ => rfl⟩
      · exact h.pass hbatch _ _ target
    · exact hrefl
  | final id res =>
    unfold Careful at hc
    unfold Test.final
    dsimp only at hc ⊢
    split
    · rename_i target timeoutMs defaultTimeoutMs skip hb
      rw [hb] at hbatch hc
      have hr : ResolvesDownload (s.profiles id) res → s.marking id = false := by
        intro _
        unfold marking
        rw [hb]
      have harr := download_arrives parseSpeedMbps fallShort s id timeoutMs defaultTimeoutMs res hbatch hr
      obtain ⟨hadv, ht⟩ := download_advances parseSpeedMbps fallShort h.times id timeoutMs defaultTimeoutMs res hbatch hr hc
      split
      · refine ⟨⟨(hprog.arrives harr).withBatch trivial, ht.still ⟨rfl, rfl, rfl, rfl, rfl⟩⟩, ?_⟩
        exact ⟨hadv.kept, fun _ _ _ => rfl, hadv.faster, hadv.bestConnection, hadv.bestDownload⟩
      · exact ⟨⟨hprog.arrives harr, ht⟩, hadv⟩
    · exact hrefl
  | resultsDone =>
    dsimp only
    split
    · rename_i target timeoutMs defaultTimeoutMs skip hb
      rw [hb] at hbatch
      exact h.pass hbatch _ _ target
    · exact hrefl
  | batch =>
    dsimp only
    split
    · rename_i p id pc hb
      rw [hb] at hbatch
      obtain ⟨hadv, ht⟩ := passStep_advances h.times hbatch hb
      exact ⟨⟨hprog.passStep hbatch (h.times.nonneg id), ht⟩, hadv⟩
    · exact hrefl

end

/-! ## The counters -/

/-- The counters never say more than who was counted. -/
structure Counts (s : Test) : Prop where
  total : s.tested + s.skipped ≤ s.counted.length
  seen : ∀ p id seen, s.batch = .pass p id (.writeCount seen) → seen ≤ s.skipped

section
variable (parseSpeedMbps : String → Rat) (fallShort : Bool)

variable {s : Test} {es : List Event}

theorem Counts.next (h : s.tested + s.skipped ≤ s.counted.length) (p : Pass) : (s.next p).Counts := by
  unfold Test.next
  split
  · exact ⟨h, nofun⟩
  refine ⟨h, fun q id seen hb => ?_⟩
  cases hc : p.connection <;> rw [hc] at hb <;> cases hb

theorem Counts.goes (h : s.tested + s.skipped ≤ s.counted.length) (p : Pass) (id : Int) {pc : Pc}
    (hpc : ∀ seen, pc = .writeCount seen → seen ≤ s.skipped) : (s.goes p id pc).Counts := by
  refine ⟨h, fun q x seen hb => hpc seen ?_⟩
  cases hb
  rfl

open Counts

theorem Counts.passStep (h : s.Counts) {p : Pass} {pc : Pc} (hb : s.batch = .pass p id pc) :
    (s.passStep p id pc).Counts := by
  have hwrites (ent : Profile) {pc' : Pc} (hpc : ∀ seen, pc' ≠ .writeCount seen) :
    ((s.setProfile id ent).goes p id pc').Counts :=
    goes (s := s.setProfile id ent) h.total p id fun seen he => absurd he (hpc seen)
  rcases passStep_cases s p id pc with heq | ⟨pc', heq, -, hcount⟩ | rfl | rfl | rfl | rfl | ⟨seen, rfl⟩
  · exact heq ▸ next h.total p
  · exact heq ▸ goes h.total p id fun seen he => le_of_eq (hcount seen he)
  · exact hwrites _ nofun
  · exact hwrites _ nofun
  · exact hwrites _ nofun
  · exact hwrites _ nofun
  refine next ?_ p
  have hseen := h.seen p id seen hb
  have htotal := h.total
  rw [length_append, length_singleton]
  push_cast
  omega

theorem Counts.download (h : s.Counts) (id limitMs defaultTimeoutMs : Int) (res : SpeedTestResult) :
    (s.download parseSpeedMbps fallShort id limitMs defaultTimeoutMs res).Counts := by
  have htotal := h.total
  unfold Test.download
  dsimp only
  rcases (applyDownloadResult parseSpeedMbps fallShort limitMs defaultTimeoutMs (s.profiles id) res).counted with _ | _ | _
  · exact ⟨h.total, h.seen⟩
  · refine ⟨?_, h.seen⟩
    simp
    omega
  refine ⟨?_, fun p x seen hb => ?_⟩
  · simp
    omega
  · have hseen := h.seen p x seen hb
    simp
    omega

theorem Counts.step (s : Test) (e : Event) (h : s.Counts) : (s.step parseSpeedMbps fallShort e).Counts := by
  unfold Test.step
  cases e with
  | connection id limitMs defaultTimeoutMs res => exact ⟨h.total, h.seen⟩
  | download id limitMs defaultTimeoutMs res =>
    dsimp only
    split
    · exact h
    · exact h.download parseSpeedMbps fallShort id limitMs defaultTimeoutMs res
  | leftovers chunk =>
    dsimp only
    split
    · exact next (s := { s with order := s.order.drop chunk }) h.total _
    · exact h
  | pretestReturns | survivor =>
    dsimp only
    split <;> exact ⟨h.total, h.seen⟩
  | runDownload target timeoutMs defaultTimeoutMs =>
    dsimp only
    split
    · exact ⟨h.total, fun _ _ _ hb => by cases hb⟩
    · exact h
  | answer rpcOK coreError =>
    unfold answer
    dsimp only
    split
    · split
      · exact ⟨h.total, fun _ _ _ hb => by cases hb⟩
      · exact next h.total _
    · exact h
  | final id res =>
    unfold final
    dsimp only
    split
    · rename_i target timeoutMs defaultTimeoutMs skip _
      have hd := h.download parseSpeedMbps fallShort id timeoutMs defaultTimeoutMs res
      split
      · exact ⟨hd.total, fun _ _ _ hb => by cases hb⟩
      · exact hd
    · exact h
  | resultsDone =>
    dsimp only
    split
    · exact next h.total _
    · exact h
  | batch =>
    dsimp only
    split
    · exact h.passStep ‹_›
    · exact h

def run (es : List Event) (s : Test) : Test := es.foldl (step parseSpeedMbps fallShort) s

/-- The first resolved status and its speed are there. -/
def Settled (s : Test) (id : Int) : Prop := (s.profiles id).status ≠ .untested ∧ s.finishing id = false

theorem Inv.run (h : s.Inv)
    (hc : AllMeet (Test.step parseSpeedMbps fallShort) (Careful parseSpeedMbps) s es) :
    (s.run parseSpeedMbps fallShort es).Inv :=
  hc.keeps (fun _ e he hs => (hs.step parseSpeedMbps fallShort e he).1) h

theorem keeps_run (h : s.Inv)
    (hc : AllMeet (step parseSpeedMbps fallShort) (Careful parseSpeedMbps) s es) (hs : s.Settled id) :
    (s.profiles id).Kept ((s.run parseSpeedMbps fallShort es).profiles id) := by
  let P (t : Test) : Prop := t.Inv ∧ t.Settled id ∧ (s.profiles id).Kept (t.profiles id)
  refine (hc.keeps (P := P) (fun t e he ht => ?_) ⟨h, hs, Kept.refl _⟩).2.2
  obtain ⟨hinv, hset, hkept⟩ := ht
  obtain ⟨hinv', hadv⟩ := hinv.step parseSpeedMbps fallShort e he
  obtain ⟨hstatus, hrx, hdl⟩ := hadv.kept id hset.2 hset.1
  refine ⟨hinv', ⟨?_, hadv.finished id hset.1 hset.2⟩, fun hun => ?_⟩
  · rw [hstatus]
    exact hset.1
  · obtain ⟨hstatus', hrx', hdl'⟩ := hkept hun
    exact ⟨hstatus.trans hstatus', hrx.trans hrx', hdl.trans hdl'⟩

/-- A value that no careful event raises once it is set is not raised by a run. -/
theorem falls_run (h : s.Inv) (f : Test → Int)
    (hf : ∀ t t', Advances t t' → Falls (f t) (f t'))
    (hc : AllMeet (Test.step parseSpeedMbps fallShort) (Careful parseSpeedMbps) s es) :
    Falls (f s) (f (s.run parseSpeedMbps fallShort es)) := by
  intro hpos
  let P (t : Test) : Prop := t.Inv ∧ 0 < f t ∧ f t ≤ f s
  refine (hc.keeps (P := P) (fun t e he ht => ?_) ⟨h, hpos, le_refl _⟩).2
  obtain ⟨hinv, ht, hle⟩ := ht
  obtain ⟨hinv', hadv⟩ := hinv.step parseSpeedMbps fallShort e he
  obtain ⟨ht', hle'⟩ := hf t _ hadv ht
  exact ⟨hinv', ht', le_trans hle' hle⟩

end

/-! ## The contract -/

section
variable (parseSpeedMbps : String → Rat) (fallShort : Bool)

/-- **A ranked speed test**, at every state of a careful run and at every later one: each profile
is counted once, the first status and its speed stay, the times and the bests only fall, the bests
are the least of what was accepted, and a returned target is resolved. -/
theorem ranked_contract {order : List Int} (hdistinct : order.Nodup) (pretesting : Bool)
    (best : Int) (es later : List Event)
    (hc : AllMeet (step parseSpeedMbps fallShort) (Careful parseSpeedMbps) (start order pretesting best) (es ++ later)) :
    let s := (start order pretesting best).run parseSpeedMbps fallShort es
    let t := s.run parseSpeedMbps fallShort later
    s.counted.Nodup ∧ s.tested + s.skipped ≤ s.counted.length ∧
    (∀ id, s.Settled id → (t.profiles id).status = (s.profiles id).status ∧
      (t.profiles id).rxSpeedMbps = (s.profiles id).rxSpeedMbps ∧ (t.profiles id).dlSpeed = (s.profiles id).dlSpeed) ∧
    (∀ id, 0 < (s.profiles id).connectTimeMs →
      0 < (t.profiles id).connectTimeMs ∧ (t.profiles id).connectTimeMs ≤ (s.profiles id).connectTimeMs) ∧
    (0 < s.bestConnectionMs → 0 < t.bestConnectionMs ∧ t.bestConnectionMs ≤ s.bestConnectionMs) ∧
    (0 < s.bestDownloadMs → 0 < t.bestDownloadMs ∧ t.bestDownloadMs ≤ s.bestDownloadMs) ∧
    Least s.bestConnectionMs s.connections ∧ Least s.bestDownloadMs s.downloads ∧
    ∀ target ∈ s.returned, ∀ id ∈ target, (s.profiles id).downloadAlreadyResolved = true := by
  intro s t
  obtain ⟨hes, hlater⟩ := hc.append
  have hinv : s.Inv := (start_inv hdistinct pretesting best).run parseSpeedMbps fallShort hes
  have hcounts : s.Counts :=
    foldl_keeps _ Counts (Counts.step parseSpeedMbps fallShort) es (start order pretesting best) ⟨le_refl _, nofun⟩
  have hfalls := fun f hf => falls_run parseSpeedMbps fallShort hinv f hf hlater
  refine ⟨hinv.progress.nodup, hcounts.total, fun id hs => ?_, fun id => ?_, ?_, ?_,
    hinv.times.leastConnection, hinv.times.leastDownload, fun target ht id hid => ?_⟩
  · exact keeps_run parseSpeedMbps fallShort hinv hlater hs hs.1
  · exact hfalls (fun s => (s.profiles id).connectTimeMs) fun _ _ hadv => (hadv.faster id).1
  · exact hfalls bestConnectionMs fun _ _ hadv => hadv.bestConnection
  · exact hfalls bestDownloadMs fun _ _ hadv => hadv.bestDownload
  · exact (downloadAlreadyResolved_iff _).mpr (hinv.progress.returned target ht id hid)

end

/-- A test of one profile, whose poller tells the speed before the answer does. -/
def smallRun : List Event :=
  [.connection 7 3000 3000 ⟨100, ""⟩, .leftovers 1, .batch, .pretestReturns, .survivor 7, .runDownload [7] 5000 5000,
    .download 7 5000 5000 ⟨80, 900, "10 Mbps", "", false⟩, .answer true "", .final 7 ⟨80, 900, "10 Mbps", "", false⟩,
    .resultsDone]

theorem ranked_contract_small :
    ((start [7] true 0).run (fun _ => 10) false smallRun).counted.Nodup ∧
      ((start [7] true 0).run (fun _ => 10) false (smallRun ++ [.batch])).returned = [[7]] ∧
      ((start [7] true 0).run (fun _ => 10) false smallRun).bestConnectionMs = 80 :=
  ⟨(ranked_contract (fun _ => 10) false (by decide) true 0 smallRun [.batch] (by decide)).1, by decide, by decide⟩

/-- The thread has read that 7 is untested when a late tick resolves it. -/
def lateTick : List Event :=
  [.runDownload [7] 5000 5000, .answer true "", .resultsDone, .batch, .batch, .batch, .batch, .batch,
    .download 7 5000 5000 ⟨80, 900, "10 Mbps", "", false⟩]

/-- The rest of the mark: the last check, the speed, the status, its text, the count. -/
def markedAnyway : List Event := replicate 7 .batch

theorem late_tick_counts_twice :
    let s := (start [7] false 0).run (fun _ => 10) false lateTick
    let t := s.run (fun _ => 10) false markedAnyway
    ¬ t.counted.Nodup ∧ t.tested = 1 ∧ t.skipped = 1 ∧ (s.profiles 7).status = .success ∧
      (t.profiles 7).status = .error := by
  decide

-- A speed that comes with a larger latency than the connection test had slows the profile down.
example : (((start [7] true 0).run (fun _ => 10) false
    [.connection 7 3000 3000 ⟨100, ""⟩, .leftovers 1, .batch, .pretestReturns,
      .download 7 5000 5000 ⟨300, 900, "10 Mbps", "", false⟩]).profiles 7).connectTimeMs = 300 := by
  decide

end Test

end Waterdisco.RankedTest
