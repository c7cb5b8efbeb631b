import Waterdisco.Route.RuleImport

/-!
# Repaired rules

What a repair makes of a rule, one error at a time (`repair_cases`), what every pass keeps
(`Repaired`), and what that says of a rule without an error.

    checkImportedRule n start = some rule → no error in rule, Repaired start rule   (checkImportedRule_repaired)
    then the values of an attribute that applies are the good ones of the start    (Repaired.settled)
-/

namespace Waterdisco.Routing

open List RouteRule Attr
open Route (trimmed emitsOutbound)

section

variable {w : World} {rule : RouteRule} {error : RuleIssue}

/-! ## Errors -/

theorem checkValue_trimmed (a : Attr) (item : String) : checkValue w a (trimmed item) = checkValue w a item := by
  rw [checkValue, checkValue, trimmed_trimmed]

theorem bad_trimmed (a : Attr) (item : String) : bad w a (trimmed item) = bad w a item := by
  rw [bad, bad, checkValue_trimmed]

variable {a : Attr} {item : String} {rule' start : RouteRule}

theorem bad_of_checkValue (h : checkValue w a item = some error)
    (herror : error.severity = .error) : bad w a item = true := by
  rw [bad, h]
  exact beq_iff_eq.mpr herror

theorem checkValue_some (h : checkValue w a item = some error) :
    error.attr = a ∧ trimmed item ≠ "" ∧ error.value = if a.isListAttribute then trimmed item else "" := by
  rw [checkValue] at h
  split at h
  · cases h
  next hblank =>
  dsimp only at h
  split at h
  · cases h
  · cases h
    exact ⟨rfl, by simpa using hblank, rfl⟩

theorem checkValue_sniffers (item : String) : checkValue w .sniffers item = none := by
  simp [checkValue, checkMessage]

theorem checkValue_wifi (item : String) : checkValue w .wifiSsid item = none ∧ checkValue w .wifiBssid item = none := by
  simp [checkValue, checkMessage]

theorem firstError_mem (h : rule.firstError w = some error) : error ∈ rule.validate w ∧ error.severity = .error := by
  have hseverity := find?_some h
  exact ⟨mem_of_find?_eq_some h, beq_iff_eq.mp hseverity⟩

theorem mem_single {p : Prop} [Decidable p] {issue : RuleIssue} :
    error ∈ (if p then [issue] else []) ↔ p ∧ error = issue := by
  by_cases h : p <;> simp [h]

theorem mem_itemIssues :
    error ∈ rule.itemIssues w ↔ ∃ a ∈ Attr.getAttributes w.darwin, a.itemized rule.effectiveAction = true ∧
      ∃ item ∈ rule.getCurrentValueString a, checkValue w a item = some error := by
  rw [itemIssues, mem_flatMap]
  refine exists_congr (fun a => and_congr_right (fun _ => ?_))
  by_cases h : a.itemized rule.effectiveAction
  · rw [if_pos h, mem_filterMap]
    exact ⟨fun hitem => ⟨h, hitem⟩, fun hitem => hitem.2⟩
  · rw [if_neg h]
    exact ⟨fun hnil => absurd hnil not_mem_nil, fun hitem => absurd hitem.1 h⟩

theorem warnings_severity (h : error ∈ rule.effectWarnings w ++ rule.ignoredWarnings w ++ rule.everythingWarnings w) :
    error.severity = .warning := by
  simp only [mem_append] at h
  obtain (h | h) | h := h
  · rw [effectWarnings, mem_append] at h
    obtain h | h := h
    · split at h
      · obtain h | h := mem_append.mp h
        · exact (mem_single.mp h).2 ▸ rfl
        · exact (mem_single.mp h).2 ▸ rfl
      · cases h
    · exact (mem_single.mp h).2 ▸ rfl
  · rw [ignoredWarnings, mem_filterMap] at h
    obtain ⟨a, -, ha⟩ := h
    repeat' split at ha
    all_goals (cases ha; try rfl)
  · exact (mem_single.mp h).2 ▸ rfl

theorem firstError_cases (h : rule.firstError w = some error) :
    (∃ a, a.itemized rule.effectiveAction = true ∧ ∃ item ∈ rule.getCurrentValueString a,
      checkValue w a item = some error ∧ error.severity = .error) ∨
    (error.attr = .outbound ∧ error.value = "" ∧ (rule.effectiveAction = "route" ∨ rule.effectiveAction = "bypass")) ∨
    (error.attr = .tlsRecordFragment ∧ error.value = "" ∧ rule.tlsFragment = true) ∨
    (error.attr = .action ∧ error.value = "") := by
  obtain ⟨hmem, herror⟩ := firstError_mem h
  rw [validate] at hmem
  split at hmem
  · cases hmem
  have hwarn : error ∉ rule.effectWarnings w ++ rule.ignoredWarnings w ++ rule.everythingWarnings w := by
    intro hwarn
    rw [warnings_severity hwarn] at herror
    cases herror
  simp only [mem_append, not_or] at hwarn hmem
  obtain (((((hitem | houtbound) | hfragment) | hoption) | heffect) | hignored) | hevery := hmem
  · obtain ⟨a, -, hitemized, item, hitem, hcheck⟩ := mem_itemIssues.mp hitem
    exact .inl ⟨a, hitemized, item, hitem, hcheck, herror⟩
  · obtain ⟨hact, rfl⟩ := mem_single.mp houtbound
    simp only [emitsOutbound, Bool.and_eq_true, Bool.or_eq_true, beq_iff_eq] at hact
    exact .inr (.inl ⟨rfl, rfl, hact.1⟩)
  · obtain ⟨hact, rfl⟩ := mem_single.mp hfragment
    simp only [Bool.and_eq_true] at hact
    exact .inr (.inr (.inl ⟨rfl, rfl, hact.2.1⟩))
  · obtain ⟨-, rfl⟩ := mem_single.mp hoption
    exact .inr (.inr (.inr ⟨rfl, rfl⟩))
  · exact absurd heffect hwarn.1.1
  · exact absurd hignored hwarn.1.2
  · exact absurd hevery hwarn.2

theorem passes_of_valid (h : rule.firstError w = none) (htype : rule.type ≠ endpointPreferredBy)
    (ha : a.itemized rule.effectiveAction = true) (hitem : item ∈ rule.values a) :
    bad w a item = false := by
  by_contra hbad
  have hflag : a.getInputType ≠ .trufalse := by
    intro hflag
    simp [itemized, hflag] at ha
  rw [RouteRule.values, if_neg hflag] at hitem
  obtain ⟨raw, hraw, rfl⟩ := mem_map.mp (mem_filter.mp hitem).1
  rw [bad_trimmed, Bool.not_eq_false, bad] at hbad
  cases hcheck : checkValue w a raw with
  | none => simp [hcheck] at hbad
  | some issue =>
    rw [hcheck] at hbad
    have hmem : a ∈ getAttributes w.darwin := by
      have hsniffers : a ≠ .sniffers := by rintro rfl; rw [checkValue_sniffers] at hcheck; cases hcheck
      have hssid : a ≠ .wifiSsid := by rintro rfl; rw [(checkValue_wifi raw).1] at hcheck; cases hcheck
      have hbssid : a ≠ .wifiBssid := by rintro rfl; rw [(checkValue_wifi raw).2] at hcheck; cases hcheck
      have hedited : a ∈ edited := by cases a <;> first | exact absurd rfl hsniffers | decide
      rw [getAttributes]
      split
      · exact mem_filter.mpr ⟨hedited, by simp [hssid, hbssid]⟩
      · exact hedited
    have hissue : issue ∈ rule.validate w := by
      rw [validate, if_neg (by simpa using htype)]
      simp only [mem_append]
      exact .inl (.inl (.inl (.inl (.inl (.inl (mem_itemIssues.mpr ⟨a, hmem, ha, raw, hraw, hcheck⟩))))))
    exact find?_eq_none.mp h issue hissue hbad

/-! ## Repairs -/

theorem filterEmpty_good (a : Attr) (items : List String) :
    filterEmpty (items.filter (fun item => !bad w a item)) = (filterEmpty items).filter (fun item => !bad w a item) := by
  induction items with
  | nil => simp only [filter_nil, filterEmpty, map_nil]
  | cons item rest ih =>
    by_cases hblank : trimmed item = "" <;> by_cases hbad : bad w a item <;>
      simp only [filter_cons, filterEmpty_cons, bad_trimmed, hblank, hbad, ih, Bool.not_true, Bool.not_false,
        Bool.false_eq_true, if_true, if_false]

/-- The values that pass. -/
def good (w : World) (a : Attr) (items : List String) : List String := items.filter (fun item => !bad w a item)

theorem good_good (a : Attr) (items : List String) : good w a (good w a items) = good w a items := by
  simp [good, filter_filter]

/-- No list of the rule has a blank item. -/
def Clean (rule : RouteRule) : Prop := ∀ a : Attr, a.isListAttribute = true → rule.getCurrentValueString a = rule.values a

/-- What one repair makes of a rule. -/
inductive Repair (w : World) (rule : RouteRule) : RouteRule → Prop where
  | items (a : Attr) (items : List String) (hkind : a ≠ .outbound ∧ a ≠ .action ∧ a ≠ .sniffers ∧
      a.getInputType ≠ .trufalse)
      (hvalues : (rule.setFieldValue a items).values a = good w a (rule.values a))
      (hmatch : a.isMatchAttribute = true → a.isListAttribute = true ∧ rule.invert = false)
      (hcustom : a.isMatchAttribute = true → rule.type = custom → good w a (rule.values a) ≠ []) :
      Repair w rule (rule.setFieldValue a items)
  | proxy (hact : rule.effectiveAction = "route" ∨ rule.effectiveAction = "bypass") :
      Repair w rule { rule with outboundID := proxyID }
  | fragment (hfragment : rule.tlsFragment = true) : Repair w rule { rule with tlsRecordFragment := false }

theorem repair_cases (hclean : Clean rule) (herror : rule.firstError w = some error)
    (h : repair w rule error = some rule') :
    Repair w rule rule' := by
  obtain ⟨a, hitemized, item, hitem, hcheck, hseverity⟩ | ⟨hattr, hvalue, hact⟩ | ⟨hattr, hvalue,
    hfragment⟩ | ⟨hattr, hvalue⟩ :=
    firstError_cases herror
  · obtain ⟨rfl, hblank, hvalue⟩ := checkValue_some hcheck
    have hflag : error.attr.getInputType ≠ .trufalse := by
      intro hflag
      simp [itemized, hflag] at hitemized
    have houtbound : error.attr ≠ .outbound := by
      intro houtbound
      simp [itemized, houtbound] at hitemized
    have hsniffers : error.attr ≠ .sniffers := by
      intro hsniffers
      rw [hsniffers, checkValue_sniffers] at hcheck
      cases hcheck
    have hbad := bad_of_checkValue hcheck hseverity
    rw [repair] at h
    split at h
    · next hlist =>
      simp only [Bool.and_eq_true, Bool.not_eq_true'] at hlist
      dsimp only at h
      split at h
      · cases h
      next hkept =>
      cases h
      have haction : error.attr ≠ .action := by
        intro haction
        rw [haction] at hlist
        exact absurd hlist.1.2 (by decide)
      have hvalues : rule.values error.attr = filterEmpty (rule.getCurrentValueString error.attr) := by
        rw [RouteRule.values, if_neg hflag]
      have hgood : (rule.setFieldValue error.attr
          ((rule.getCurrentValueString error.attr).filter (fun item => !bad w error.attr item))).values error.attr =
          good w error.attr (rule.values error.attr) := by
        rw [values_setFieldValue rule _ houtbound hsniffers, keeps, if_neg hflag, if_pos hlist.1.2,
          filterEmpty_good, ← hvalues, good]
      refine .items _ _ ⟨houtbound, haction, hsniffers,
        hflag⟩ hgood (fun _ => ⟨hlist.1.2, hlist.1.1⟩) (fun hmatch hcustom hnil => hkept ?_)
      rw [good, ← hclean _ hlist.1.2] at hnil
      simp [hnil, hcustom, hmatch]
    · next hlist =>
      split at h
      · cases h
      next hmatch =>
      simp only [Bool.or_eq_true, not_or, Bool.not_eq_true, beq_eq_false_iff_ne] at hmatch
      rw [if_neg (by simpa using houtbound)] at h
      cases h
      rw [clearAttributeValue_eq rule hmatch.1 houtbound hsniffers]
      refine .items _ _ ⟨houtbound, hmatch.1, hsniffers, hflag⟩ ?_ (fun h => absurd h (by simp [hmatch.2]))
        (fun h => absurd h (by simp [hmatch.2]))
      have hone : error.attr.isListAttribute = false := by
        by_contra hone
        rw [Bool.not_eq_false] at hone
        exact absurd (list_is_match hone hsniffers) (by simp [hmatch.2])
      obtain ⟨text, htext⟩ := rule.getCurrentValueString_one hone hflag
      rw [htext, mem_singleton] at hitem
      subst hitem
      rw [values_setFieldValue rule _ houtbound hsniffers, RouteRule.values, if_neg hflag, htext,
        filterEmpty_one, if_neg hblank, good, filter_cons_of_neg (by simpa [bad_trimmed] using hbad)]
      simp [keeps, hflag, hone, hmatch.1, scalar, filterEmpty, trimmed_empty]
  · rw [repair, hattr, if_neg (by simp [isListAttribute]), if_neg (by simp [isMatchAttribute]),
      if_pos (by simp)] at h
    cases h
    exact .proxy hact
  · rw [repair, hattr, if_neg (by simp [isListAttribute]), if_neg (by simp [isMatchAttribute]),
      if_neg (by simp)] at h
    cases h
    exact .fragment hfragment
  · rw [repair, hattr, if_neg (by simp [isListAttribute]), if_pos (by simp)] at h
    cases h

/-! ## Passes -/

/-- What every pass keeps. -/
structure Repaired (w : World) (start rule : RouteRule) : Prop where
  type : rule.type = start.type
  act : rule.effectiveAction = start.effectiveAction
  clean : Clean rule
  flags : ∀ a, a.getInputType = .trufalse → a ≠ .tlsRecordFragment →
    rule.getCurrentValueBool a = start.getCurrentValueBool a
  fragment : rule.tlsRecordFragment = start.tlsRecordFragment ∨ start.tlsFragment = true
  values : ∀ a, a.getInputType ≠ .trufalse → a ≠ .outbound →
    rule.values a = start.values a ∨ rule.values a = good w a (start.values a)
  /-- An inverted rule keeps its conditions, and every rule those that are no lists. -/
  whole : ∀ a, a.isMatchAttribute = true → start.invert = true ∨ a.isListAttribute = false →
    rule.values a = start.values a
  /-- A custom rule keeps something of each. -/
  kept : start.type = custom → ∀ a, a.isMatchAttribute = true → rule.values a = [] → start.values a = []

theorem Repaired.refl (h : Clean rule) : Repaired w rule rule where
  type := rfl
  act := rfl
  clean := h
  flags _ _ _ := rfl
  fragment := .inl rfl
  values _ _ _ := .inl rfl
  whole _ _ _ := rfl
  kept _ _ _ h := h

variable (h : Repaired w start rule)

include h in
theorem Repaired.invert : rule.invert = start.invert :=
  h.flags .invert rfl (by simp)

include h in
theorem Repaired.tlsFragment : rule.tlsFragment = start.tlsFragment :=
  h.flags .tlsFragment rfl (by simp)

theorem effectiveAction_set (haction : a ≠ .action) (houtbound : a ≠ .outbound) (items : List String) :
    (rule.setFieldValue a items).effectiveAction = rule.effectiveAction := by
  rw [effectiveAction, effectiveAction, rule.set_action haction, rule.set_outboundID houtbound]

theorem effectiveAction_proxy (h : rule.effectiveAction = "route" ∨ rule.effectiveAction = "bypass") :
    ({ rule with outboundID := proxyID } : RouteRule).effectiveAction = rule.effectiveAction := by
  have hproxy : ({ rule with outboundID := proxyID } : RouteRule).effectiveAction = rule.action := by
    rw [effectiveAction, if_neg (by simp [proxyID, blockID]), if_neg (by simp [proxyID, dnsOutID])]
  rw [hproxy]
  rw [effectiveAction] at h ⊢
  split
  · next hblock => simp [hblock] at h
  next hblock =>
  rw [if_neg hblock] at h
  split
  · next hdns => simp [hdns] at h
  · rfl

include h

theorem Repaired.step (hstep : Repair w rule rule') :
    Repaired w start rule' := by
  cases hstep with
  | items a items hkind hvalues hmatch hcustom =>
    obtain ⟨houtbound, haction, hsniffers, hflag⟩ := hkind
    refine ⟨?_, ?_, ?_, ?_, ?_, ?_, ?_, ?_⟩
    · rw [rule.set_type, h.type]
    · rw [effectiveAction_set haction houtbound, h.act]
    · intro b hb
      by_cases hba : a = b
      · subst hba
        rw [RouteRule.values, if_neg hflag, rule.getCurrentValueString_set_list hb hsniffers, filterEmpty_filterEmpty]
      · rw [rule.getCurrentValueString_set_other hba, rule.values_set_other hba, h.clean b hb]
    · intro b hb hrecord
      have hba : a ≠ b := fun hab => hflag (hab ▸ hb)
      rw [rule.getCurrentValueBool_set_other hba, h.flags b hb hrecord]
    · have hrecord : a ≠ .tlsRecordFragment := by rintro rfl; exact hflag rfl
      have hsame : (rule.setFieldValue a items).tlsRecordFragment = rule.tlsRecordFragment :=
        rule.getCurrentValueBool_set_other hrecord items
      rw [hsame]
      exact h.fragment
    · intro b hb hbout
      by_cases hba : a = b
      · subst hba
        right
        rw [hvalues]
        obtain hv | hv := h.values a hb hbout
        · rw [hv]
        · rw [hv, good_good]
      · rw [rule.values_set_other hba]
        exact h.values b hb hbout
    · intro b hb hwhole
      have hba : a ≠ b := by
        rintro rfl
        rw [← h.invert, (hmatch hb).1, (hmatch hb).2] at hwhole
        cases hwhole <;> contradiction
      rw [rule.values_set_other hba, h.whole b hb hwhole]
    · intro htype b hb hnil
      by_cases hba : a = b
      · subst hba
        rw [hvalues] at hnil
        exact absurd hnil (hcustom hb (h.type.trans htype))
      · rw [rule.values_set_other hba] at hnil
        exact h.kept htype b hb hnil
  | proxy hact =>
    refine ⟨h.type, (effectiveAction_proxy hact).trans h.act, ?_, ?_, h.fragment, ?_, ?_, ?_⟩
    · intro b hb
      have hbout : b ≠ .outbound := by rintro rfl; cases hb
      rw [rule.values_outboundID _ hbout, ← h.clean b hb]
      cases b <;> first | exact absurd rfl hbout | rfl
    · intro b hb hrecord
      rw [← h.flags b hb hrecord]
      cases b <;> rfl
    · intro b hb hbout
      rw [rule.values_outboundID _ hbout]
      exact h.values b hb hbout
    · intro b hb hwhole
      have hbout : b ≠ .outbound := by rintro rfl; cases hb
      rw [rule.values_outboundID _ hbout, h.whole b hb hwhole]
    · intro htype b hb hnil
      have hbout : b ≠ .outbound := by rintro rfl; cases hb
      rw [rule.values_outboundID _ hbout] at hnil
      exact h.kept htype b hb hnil
  | fragment hfragment =>
    have hstart : start.tlsFragment = true := h.tlsFragment ▸ hfragment
    refine ⟨h.type, h.act, ?_, ?_, .inr hstart, ?_, ?_, ?_⟩
    · intro b hb
      have hrecord : b ≠ .tlsRecordFragment := by rintro rfl; cases hb
      rw [rule.values_tlsRecordFragment _ hrecord, ← h.clean b hb]
      cases b <;> rfl
    · intro b hb hrecord
      rw [← h.flags b hb hrecord]
      cases b <;> first | exact absurd rfl hrecord | rfl
    · intro b hb hbout
      have hrecord : b ≠ .tlsRecordFragment := by rintro rfl; exact hb rfl
      rw [rule.values_tlsRecordFragment _ hrecord]
      exact h.values b hb hbout
    · intro b hb hwhole
      have hrecord : b ≠ .tlsRecordFragment := by rintro rfl; cases hb
      rw [rule.values_tlsRecordFragment _ hrecord, h.whole b hb hwhole]
    · intro htype b hb hnil
      have hrecord : b ≠ .tlsRecordFragment := by rintro rfl; cases hb
      rw [rule.values_tlsRecordFragment _ hrecord] at hnil
      exact h.kept htype b hb hnil

/-- **Passes.** A rule that is returned has no error, and is the one it was but for its repairs. -/
theorem checkImportedRule_repaired {passes : Nat}
    (hrule : checkImportedRule w passes rule = some rule') : rule'.firstError w = none ∧ Repaired w start rule' := by
  induction passes generalizing rule with
  | zero => cases hrule
  | succ passes ih =>
    rw [checkImportedRule] at hrule
    cases herror : rule.firstError w with
    | none =>
      rw [herror] at hrule
      cases hrule
      exact ⟨herror, h⟩
    | some error =>
      rw [herror] at hrule
      obtain ⟨next, hnext, hrest⟩ := Option.bind_eq_some_iff.mp hrule
      exact ih (h.step (repair_cases h.clean herror hnext)) hrest

theorem Repaired.settled (hvalid : rule.firstError w = none)
    (htype : start.type ≠ endpointPreferredBy) (ha : a.itemized start.effectiveAction = true) :
    rule.values a = good w a (start.values a) := by
  have hflag : a.getInputType ≠ .trufalse := by
    intro hflag
    simp [itemized, hflag] at ha
  have houtbound : a ≠ .outbound := by
    rintro rfl
    simp [itemized] at ha
  obtain hv | hv := h.values a hflag houtbound
  · rw [← hv]
    refine (filter_eq_self.mpr (fun item hitem => ?_)).symm
    rw [passes_of_valid hvalid (h.type ▸ htype) (h.act ▸ ha) hitem]
    rfl
  · exact hv

end

end Waterdisco.Routing
