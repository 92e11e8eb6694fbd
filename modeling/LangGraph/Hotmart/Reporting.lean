import LangGraph.Hotmart.Authority

namespace LangGraph

open Collections Store

namespace Hotmart

-- The effects an action stands for; a label is put where the server knows labels.
def externalEffects : ActionType → List Effect
  | .report => []
  | .sendEmail => [.replySent, .handled]
  | .draftEmail => [.draftSaved]
  | .issueRefund => [.refundRequested]
  | .createCampaign => [.campaignCreated, .adsetCreated]
  | .updateBudget => [.budgetUpdated]
  | .pauseCampaign => [.campaignPaused]
  | .escalate => [.handled]

section Attempts

variable {F : Type}

def Item.effect? : Item F → Option Effect
  | .command c => c.effect
  | _ => none

def needed (items : List (Item F)) : List Effect := items.filterMap Item.effect?

-- Every command goes through; one that is ignored when refused leaves no effect out.
def Completes : List (Item F) → List Reply → Prop
  | [], _ => True
  | .call _ :: items, replies => Completes items replies
  | .raises _ :: _, _ => False
  | .command c :: items, replies =>
      match replies.headD .ok with
      | .ok => Completes items replies.tail
      | .failed e tookEffect =>
          c.handling e.kind = .swallows ∧ (c.effect ≠ none → tookEffect = true) ∧
            needed items = []

def caught (c : Command) (e : WireError) : Bool :=
  match c.handling e.kind with
  | .converts _ => true
  | .swallows => false
  | .passes => e.kind = .agent

-- The first command that raises comes before every effect and raises what the loop catches.
def FailsFirst : List (Item F) → List Reply → Prop
  | [], _ => False
  | .call _ :: items, replies => FailsFirst items replies
  | .raises _ :: _, _ => False
  | .command c :: items, replies =>
      match replies.headD .ok with
      | .ok => c.effect = none ∧ FailsFirst items replies.tail
      | .failed e tookEffect => caught c e = true ∧ (tookEffect = true → c.effect = none)

theorem attempt_command_ok {c : Command} {items : List (Item F)} {replies : List Reply}
    (h : replies.headD .ok = .ok) :
    attempt (.command c :: items) replies = (attempt items replies.tail).after c.effect := by
  rw [attempt, h]

theorem attempt_command_failed {c : Command} {items : List (Item F)} {replies : List Reply}
    {e : WireError} {tookEffect : Bool} (h : replies.headD .ok = .failed e tookEffect) :
    attempt (.command c :: items) replies =
      ⟨[], if tookEffect then c.effect.toList else [], raisedBy c e⟩ := by
  rw [attempt, h]

theorem needed_command (c : Command) (items : List (Item F)) :
    needed (.command c :: items) = c.effect.toList ++ needed items := by
  rw [needed, List.filterMap_cons]
  cases h : c.effect with
  | none => simp [Item.effect?, h, needed]
  | some effect => simp [Item.effect?, h, needed]

theorem raisedBy_ok_iff {c : Command} {e : WireError} :
    raisedBy c e = .ok () ↔ c.handling e.kind = .swallows := by
  rw [raisedBy]
  cases c.handling e.kind with
  | converts service => simp
  | swallows => simp
  | passes => by_cases hkind : e.kind = .agent <;> simp [hkind]

theorem raisedBy_agent_iff {c : Command} {e : WireError} :
    (∃ text, raisedBy c e = .error (.agent text)) ↔ caught c e = true := by
  rw [raisedBy, caught]
  cases c.handling e.kind with
  | converts service => simp
  | swallows => simp
  | passes => by_cases hkind : e.kind = .agent <;> simp [hkind]

def Attempt.Complete (t : Attempt F) (effects : List Effect) : Prop :=
  t.outcome = .ok () ∧ t.effects = effects

def Attempt.Untouched (t : Attempt F) : Prop :=
  (∃ text, t.outcome = .error (.agent text)) ∧ t.effects = []

theorem complete_iff (items : List (Item F)) (replies : List Reply) :
    (attempt items replies).Complete (needed items) ↔ Completes items replies := by
  induction items generalizing replies with
  | nil => exact iff_of_true ⟨rfl, rfl⟩ trivial
  | cons item items ih =>
    cases item with
    | call c => exact ih replies
    | raises e =>
      rw [attempt, Attempt.Complete, Completes]
      simp
    | command c =>
      rw [needed_command, Completes]
      cases hreply : replies.headD .ok with
      | ok =>
        rw [attempt_command_ok hreply, ← ih, Attempt.Complete, Attempt.after]
        simp only [List.append_cancel_left_eq]
        rfl
      | failed e tookEffect =>
        rw [attempt_command_failed hreply, Attempt.Complete]
        simp only [raisedBy_ok_iff]
        refine and_congr_right fun _ => ?_
        cases tookEffect <;> cases c.effect <;> simp

theorem untouched_iff (items : List (Item F)) (replies : List Reply)
    (h : ∀ text, .raises (.agent text) ∉ items) :
    (attempt items replies).Untouched ↔ FailsFirst items replies := by
  induction items generalizing replies with
  | nil =>
    rw [attempt, Attempt.Untouched, FailsFirst]
    simp
  | cons item items ih =>
    have hitems : ∀ text, .raises (.agent text) ∉ items :=
      fun text hmem => h text (List.mem_cons_of_mem _ hmem)
    cases item with
    | call c => exact ih replies hitems
    | raises e =>
      rw [attempt, Attempt.Untouched, FailsFirst]
      refine iff_of_false ?_ id
      rintro ⟨⟨text, htext⟩, -⟩
      cases htext
      exact h text List.mem_cons_self
    | command c =>
      rw [FailsFirst]
      cases hreply : replies.headD .ok with
      | ok =>
        rw [attempt_command_ok hreply, ← ih _ hitems, Attempt.Untouched, Attempt.after]
        cases c.effect <;> simp [Attempt.Untouched]
      | failed e tookEffect =>
        rw [attempt_command_failed hreply, Attempt.Untouched]
        simp only [raisedBy_agent_iff]
        refine and_congr_right fun _ => ?_
        cases tookEffect <;> cases c.effect <;> simp

theorem outcome_not_guardrail {items : List (Item F)} (replies : List Reply)
    (h : ∀ text, .raises (.guardrail text) ∉ items) (text : String) :
    (attempt items replies).outcome ≠ .error (.guardrail text) := by
  induction items generalizing replies with
  | nil => exact fun hc => nomatch hc
  | cons item items ih =>
    have hitems : ∀ text, .raises (.guardrail text) ∉ items :=
      fun text hmem => h text (List.mem_cons_of_mem _ hmem)
    cases item with
    | call c => exact ih replies hitems
    | raises e =>
      intro hc
      cases hc
      exact h text List.mem_cons_self
    | command c =>
      cases hreply : replies.headD .ok with
      | ok =>
        rw [attempt_command_ok hreply]
        exact ih _ hitems
      | failed e tookEffect =>
        rw [attempt_command_failed hreply]
        simp only [raisedBy]
        split
        · exact fun hc => nomatch hc
        · exact fun hc => nomatch hc
        · split <;> exact fun hc => nomatch hc

-- What raises in the end is reached where no error on the way is ignored.
theorem outcome_not_ok {items : List (Item F)} {e : Raised} (replies : List Reply)
    (h : ∀ c, .command c ∈ items → ∀ k, c.handling k ≠ .swallows) :
    (attempt (items ++ [.raises e]) replies).outcome ≠ .ok () := by
  induction items generalizing replies with
  | nil => exact fun hc => nomatch hc
  | cons item items ih =>
    have hitems : ∀ c, .command c ∈ items → ∀ k, c.handling k ≠ .swallows :=
      fun c hmem => h c (List.mem_cons_of_mem _ hmem)
    cases item with
    | call c => exact ih replies hitems
    | raises e => exact fun hc => nomatch hc
    | command c =>
      rw [List.cons_append]
      cases hreply : replies.headD .ok with
      | ok =>
        rw [attempt_command_ok hreply]
        exact ih _ hitems
      | failed e tookEffect =>
        rw [attempt_command_failed hreply]
        exact fun hc => h c List.mem_cons_self _ (raisedBy_ok_iff.mp hc)

theorem raises_not_mem_items {calls : List (Call F)} {e : Raised} :
    .raises e ∉ calls.flatMap Call.items := by
  intro h
  obtain ⟨c, -, hc⟩ := List.mem_flatMap.mp h
  rcases List.mem_cons.mp hc with hcall | hcommand
  · cases hcall
  · obtain ⟨command, -, hcommand⟩ := List.mem_map.mp hcommand
    cases hcommand

end Attempts

section Actions

variable {F : Type} [Amounts F]

-- A payload without a field, a budget that is refused, or calls for all the effects.
inductive Performs (a : Action F) : List (Item F) → Prop
  | raises (e : Raised) (h : ∀ text, e ≠ .agent text) : Performs a [.raises e]
  | unmarked (recipient subject body inReplyTo : Json F) :
      Performs a ((Call.sendReply recipient subject body inReplyTo).items ++
        [.raises (keyError "email_id")])
  | calls (cs : List (Call F)) (h : needed (cs.flatMap Call.items) = externalEffects a.type) :
      Performs a (cs.flatMap Call.items)

omit [Amounts F] in
theorem performs_item {a : Action F} {p : List (String × Json F)} {k : String}
    {next : Json F → List (Item F)} (h : ∀ v, Performs a (next v)) :
    Performs a (item p k next) := by
  rw [item]
  cases Dict.lookup k p with
  | some v => exact h v
  | none => exact .raises _ fun text hc => by cases hc

omit [Amounts F] in
theorem performs_call {a : Action F} (c : Call F)
    (h : needed c.items = externalEffects a.type) : Performs a c.items := by
  have hone : [c].flatMap Call.items = c.items := List.flatMap_singleton ..
  rw [← hone]
  exact .calls [c] (hone ▸ h)

theorem performs (a : Action F) (settings : Settings F) : Performs a (perform a settings) := by
  rw [perform]
  cases htype : a.type with
  | report => exact .calls [] (by rw [htype]; rfl)
  | draftEmail =>
    refine performs_item fun recipient => performs_item fun subject => performs_item fun body => ?_
    exact performs_call _ (by rw [htype]; rfl)
  | escalate => exact performs_item fun id => performs_call _ (by rw [htype]; rfl)
  | pauseCampaign => exact performs_item fun id => performs_call _ (by rw [htype]; rfl)
  | issueRefund => exact performs_item fun id => performs_call _ (by rw [htype]; rfl)
  | createCampaign =>
    simp only
    split
    · exact performs_call _ (by rw [htype]; rfl)
    · exact .raises _ fun text hc => by cases hc
  | updateBudget =>
    refine performs_item fun value => ?_
    split
    · exact .raises _ fun text hc => by cases hc
    · split
      · exact .raises _ fun text hc => by cases hc
      · exact performs_item fun id => performs_call _ (by rw [htype]; rfl)
  | sendEmail =>
    refine performs_item fun recipient => performs_item fun subject => performs_item fun body => ?_
    rw [item]
    cases Dict.lookup "email_id" a.payload with
    | none => exact .unmarked _ _ _ _
    | some id =>
      exact .calls [Call.sendReply recipient subject body (field a.payload "thread_id" (.str "")),
        .markHandled id "agente/respondido"] (by rw [htype]; rfl)

-- How an attempt may end for its result to be true.
def Honest (t : Attempt F) (type : ActionType) : Prop :=
  (∃ text, t.outcome = .error (.guardrail text)) ∨ t.Complete (externalEffects type) ∨ t.Untouched

def Sound (a : Action F) (settings : Settings F) (replies : List Reply) : Prop :=
  Completes (perform a settings) replies ∨ FailsFirst (perform a settings) replies ∨
    ∃ text, perform a settings = [.raises (.guardrail text)]

omit [Amounts F] in
theorem honest_raises (type : ActionType) {e : Raised} (h : ∀ text, e ≠ .agent text) :
    Honest (⟨[], [], .error e⟩ : Attempt F) type ↔ ∃ text, e = .guardrail text := by
  constructor
  · rintro (⟨text, htext⟩ | ⟨hok, -⟩ | ⟨⟨text, htext⟩, -⟩)
    · exact ⟨text, Except.error.inj htext⟩
    · cases hok
    · exact absurd (Except.error.inj htext) (h text)
  · rintro ⟨text, rfl⟩
    exact .inl ⟨text, rfl⟩

omit [Amounts F] in
theorem honest_of_performs {a : Action F} {items : List (Item F)} (replies : List Reply)
    (h : Performs a items) :
    Honest (attempt items replies) a.type ↔
      Completes items replies ∨ FailsFirst items replies ∨
        ∃ text, items = [.raises (.guardrail text)] := by
  cases h with
  | raises e h =>
    refine (honest_raises a.type h).trans ?_
    simp [Completes, FailsFirst]
  | unmarked recipient subject body inReplyTo =>
    have hswallows : ∀ c, Item.command c ∈ (Call.sendReply recipient subject body inReplyTo).items →
        ∀ k, c.handling k ≠ .swallows := by
      intro c hc k
      simp only [Call.items, Call.commands, sendReply, List.map_cons, List.map_nil, List.mem_cons,
        reduceCtorEq, Item.command.injEq, List.not_mem_nil, or_false, false_or] at hc
      rcases hc with rfl | rfl | rfl | rfl | rfl | rfl <;> cases k <;> exact fun h => by cases h
    have hok := @outcome_not_ok _ _ (keyError "email_id") replies hswallows
    have hraises : ∀ e, .raises e ∈ (Call.sendReply recipient subject body inReplyTo).items ++
        [.raises (keyError "email_id")] → e = keyError "email_id" := by
      intro e he
      rcases List.mem_append.mp he with hitems | hlast
      · have hmem : Item.raises e ∈ [Call.sendReply recipient subject body inReplyTo].flatMap
            Call.items := by
          rw [List.flatMap_singleton]
          exact hitems
        exact absurd hmem raises_not_mem_items
      · exact Item.raises.inj (List.mem_singleton.mp hlast)
    rw [Honest, untouched_iff _ _ fun text hmem => by cases hraises _ hmem]
    constructor
    · rintro (⟨text, htext⟩ | ⟨hcomplete, -⟩ | huntouched)
      · exact absurd htext (outcome_not_guardrail _ (fun text hmem => by cases hraises _ hmem) text)
      · exact absurd hcomplete hok
      · exact .inr (.inl huntouched)
    · rintro (hcompletes | huntouched | ⟨text, htext⟩)
      · exact absurd ((complete_iff _ _).mpr hcompletes).1 hok
      · exact .inr (.inr huntouched)
      · cases htext
  | calls cs h =>
    have hno : ∀ e, .raises e ∉ cs.flatMap Call.items := fun e => raises_not_mem_items
    rw [Honest, ← h, complete_iff, untouched_iff _ _ fun text => hno _]
    constructor
    · rintro (⟨text, htext⟩ | hcomplete | huntouched)
      · exact absurd htext (outcome_not_guardrail _ (fun text => hno _) text)
      · exact .inl hcomplete
      · exact .inr (.inl huntouched)
    · rintro (hcomplete | huntouched | ⟨text, htext⟩)
      · exact .inr (.inl hcomplete)
      · exact .inr (.inr huntouched)
      · exact absurd (htext ▸ List.mem_cons_self) (hno _)

theorem honest_iff (a : Action F) (settings : Settings F) (replies : List Reply) :
    Honest (attempt (perform a settings) replies) a.type ↔ Sound a settings replies :=
  honest_of_performs replies (performs a settings)

variable {settings : Settings F} {approvals : Approvals}

-- One action of the loop: it has a result, and the result is true.
def TruthfulEntry (e : Entry F) : Prop :=
  ∃ r, e.result = .ok r ∧ r.actionId = e.action.id ∧ ∀ t, e.attempted = some t →
    (r.status = .failed → t.effects = []) ∧
      (r.status = .done → t.effects = externalEffects e.action.type) ∧
      (Effect.replySent ∈ t.effects → r.status ≠ .failed)

omit [Amounts F] in
theorem truthful_report_iff (a : Action F) (t : Attempt F) :
    TruthfulEntry (report a t) ↔ Honest t a.type := by
  rw [TruthfulEntry, Honest, Attempt.Complete, Attempt.Untouched, report]
  cases houtcome : t.outcome with
  | ok u => simp
  | error e =>
    cases e with
    | guardrail text => simp
    | agent text =>
      constructor
      · rintro ⟨r, hr, -, htrue⟩
        cases hr
        exact .inr (.inr ⟨⟨text, rfl⟩, (htrue t rfl).1 rfl⟩)
      · rintro (⟨guardrail, hguardrail⟩ | ⟨hok, -⟩ | ⟨-, hnone⟩)
        · cases hguardrail
        · cases hok
        · refine ⟨_, rfl, rfl, ?_⟩
          rintro _ ⟨⟩
          exact ⟨fun _ => hnone, fun hdone => (by cases hdone), by simp [hnone]⟩
    | other text => simp

theorem truthful_executeAction_iff (w : Work F) :
    TruthfulEntry (executeAction settings approvals w) ↔
      (Executes settings approvals w.1 → Sound w.1 settings w.2) := by
  by_cases h : Executes settings approvals w.1
  · rw [executeAction_executes h, truthful_report_iff, honest_iff]
    exact ⟨fun hs _ => hs, fun hs => hs h⟩
  · obtain ⟨status, detail, hidle⟩ := executeAction_idle h
    rw [hidle]
    refine iff_of_true ⟨_, rfl, rfl, fun t ht => nomatch ht⟩ fun hc => absurd hc h

structure Truthful (settings : Settings F) (approvals : Approvals) (work : List (Work F)) : Prop where
  completes : ∃ executed, executar settings approvals work = .ok executed ∧
    executed.results.map ActionResult.actionId = work.map (fun w => w.1.id)
  attempts : ∀ w ∈ work, Executes settings approvals w.1 →
    ∃ e ∈ entries settings approvals work,
      e.action = w.1 ∧ e.attempted = some (attempt (perform w.1 settings) w.2)
  reports : ∀ e ∈ entries settings approvals work, TruthfulEntry e

theorem entries_cons_ok {w : Work F} {rest : List (Work F)} {r : ActionResult}
    (h : (executeAction settings approvals w).result = .ok r) :
    entries settings approvals (w :: rest) =
      executeAction settings approvals w :: entries settings approvals rest := by
  rw [entries]
  simp only [h]

theorem entries_eq_map {work : List (Work F)} {executed : Executed}
    (h : executar settings approvals work = .ok executed) :
    entries settings approvals work = work.map (executeAction settings approvals) := by
  have hresults : ∃ results, (entries settings approvals work).mapM Entry.result = .ok results := by
    rw [executar] at h
    cases hresults : (entries settings approvals work).mapM Entry.result with
    | error e => simp [hresults, bind, Except.bind] at h
    | ok results => exact ⟨results, rfl⟩
  clear h
  induction work with
  | nil => rfl
  | cons w rest ih =>
    obtain ⟨results, hresults⟩ := hresults
    cases hr : (executeAction settings approvals w).result with
    | error e =>
      rw [entries] at hresults
      simp [hr, bind, Except.bind] at hresults
    | ok r =>
      rw [entries_cons_ok hr] at hresults ⊢
      rw [List.mapM_cons, hr] at hresults
      cases hrest : (entries settings approvals rest).mapM Entry.result with
      | error e => simp [hrest, bind, Except.bind] at hresults
      | ok more => rw [ih ⟨more, hrest⟩, List.map_cons]

theorem executar_of_truthful {work : List (Work F)}
    (h : ∀ w ∈ work, TruthfulEntry (executeAction settings approvals w)) :
    ∃ executed, executar settings approvals work = .ok executed ∧
      executed.results.map ActionResult.actionId = work.map (fun w => w.1.id) := by
  have hresults : ∃ results, (entries settings approvals work).mapM Entry.result = .ok results ∧
      results.map ActionResult.actionId = work.map (fun w => w.1.id) := by
    induction work with
    | nil => exact ⟨[], rfl, rfl⟩
    | cons w rest ih =>
      obtain ⟨⟨r, hr, hid, -⟩, hrest⟩ := List.forall_mem_cons.mp h
      obtain ⟨results, hresults, hids⟩ := ih hrest
      refine ⟨r :: results, ?_, ?_⟩
      · rw [entries_cons_ok hr, List.mapM_cons, hr, hresults]
        rfl
      · rw [List.map_cons, List.map_cons, hids, hid, action_executeAction]
  obtain ⟨results, hresults, hids⟩ := hresults
  refine ⟨⟨results, (entries settings approvals work).flatMap Entry.degraded⟩, ?_, hids⟩
  rw [executar]
  simp only [hresults]
  rfl

end Actions

-- The reply goes out, and the mailbox does not let the agent in again.
def reply : Action Rat where
  id := "mail-1"
  type := .sendEmail
  domain := .support
  title := "Responder"
  payload := [("email_id", .str "7"), ("to", .str "a@b"), ("subject", .str "s"), ("body", .str "b")]
  rationale := ""
  expectedImpact := 0
  cost := 0
  reversible := false
  priority := 0
  mode := .auto
  modeReason := ""
  sourceFinding := none

def unreachable : List Reply :=
  [.ok, .ok, .ok, .ok, .ok, .ok, .failed ⟨.os, "timed out"⟩ false]

end Hotmart

end LangGraph
