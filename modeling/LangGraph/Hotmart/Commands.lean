import LangGraph.Collections.StableSort
import LangGraph.Hotmart.Spending
import LangGraph.Transition.Run

namespace LangGraph

open Collections Store Transition

namespace Hotmart

section Ranks

variable {F : Type} [Amounts F] {settings : Settings F} {findings old new : List (Finding F)}

def scored (settings : Settings F) (findings : List (Finding F)) :
    Except CompareError (List (Finding F × F)) :=
  findings.mapM (fun f => return (f, ← priorityScore f settings))

def inOrder (a b : Finding F × F) : Bool := !rankedBefore b a

theorem prioritize_eq (settings : Settings F) (findings : List (Finding F)) :
    prioritize findings settings =
      scored settings findings >>= fun l => .ok ((l.mergeSort inOrder).map Prod.fst) := rfl

-- No score and no impact is such that it cannot be compared.
def Comparable (settings : Settings F) (findings : List (Finding F)) : Prop :=
  ∀ l, scored settings findings = .ok l →
    (∀ a ∈ l, ∀ b ∈ l, ∀ c ∈ l, inOrder a b = true → inOrder b c = true → inOrder a c = true) ∧
      ∀ a ∈ l, ∀ b ∈ l, (inOrder a b || inOrder b a) = true

-- The codes by which `rank_actions` looks up what an action was proposed for.
def sources (findings : List (Finding F)) : List String :=
  ["", "ADS_PLAN", "SUPPORT_ESCALATION"] ++
    (findings.filter (fun f => f.campaign?.isSome)).map Finding.code

def counts (new : List (Finding F)) (f : Finding F) : Bool :=
  f.campaign?.isSome || f.code ∈ sources new

theorem fst_of_scored {f : Finding F} {pair : Finding F × F}
    (h : (do return (f, ← priorityScore f settings)) = Except.ok pair) : pair.1 = f := by
  obtain ⟨score, -, hpair⟩ := Exceptions.bind_ok h
  cases hpair
  rfl

theorem filter_prioritize {ranked ranked' : List (Finding F)} {p : Finding F → Bool}
    (hcomparable : Comparable settings (old ++ new)) (hold : ∀ f ∈ old, p f = false)
    (h : prioritize (old ++ new) settings = .ok ranked)
    (h' : prioritize new settings = .ok ranked') : ranked.filter p = ranked'.filter p := by
  obtain ⟨l, hl, hranked⟩ := Exceptions.bind_ok (prioritize_eq settings (old ++ new) ▸ h)
  obtain ⟨l', hl', hranked'⟩ := Exceptions.bind_ok (prioritize_eq settings new ▸ h')
  cases hranked
  cases hranked'
  obtain ⟨oldScored, newScored, hos, hns, rfl⟩ := Exceptions.mapM_of_append hl
  have hsame : newScored = l' := Except.ok.inj (hns.symm.trans hl')
  subst hsame
  have hnone : oldScored.filter (fun a => p a.1) = [] := by
    have hfiltered := Exceptions.mapM_filter (q := fun a : Finding F × F => p a.1)
      (fun f pair hpair => by rw [fst_of_scored hpair]) hos
    rw [List.filter_eq_nil_iff.mpr fun f hf => by simp [hold f hf]] at hfiltered
    exact (Except.ok.inj hfiltered).symm
  obtain ⟨htrans, htotal⟩ := hcomparable _ hl
  have hsort {k : List (Finding F × F)}
      (htrans : ∀ a ∈ k, ∀ b ∈ k, ∀ c ∈ k,
        inOrder a b = true → inOrder b c = true → inOrder a c = true)
      (htotal : ∀ a ∈ k, ∀ b ∈ k, (inOrder a b || inOrder b a) = true) :
      ((k.mergeSort inOrder).map Prod.fst).filter p =
        ((k.filter (fun a => p a.1)).mergeSort inOrder).map Prod.fst := by
    rw [List.filter_map]
    exact congrArg (List.map Prod.fst) (filter_mergeSort htrans htotal (fun a => p a.1))
  have hin {a : Finding F × F} (ha : a ∈ newScored) : a ∈ oldScored ++ newScored :=
    List.mem_append_right _ ha
  rw [hsort htrans htotal,
    hsort (fun a ha b hb c hc => htrans a (hin ha) b (hin hb) c (hin hc))
      (fun a ha b hb => htotal a (hin ha) b (hin hb)),
    List.filter_append, hnone, List.nil_append]

end Ranks

section Lookups

variable {F : Type} [Amounts F] {settings : Settings F} {fresh : Nat → String}
  {new ranked ranked' : List (Finding F)} {actions : List (Action F)}

theorem actionFromFinding_unnamed {n : Nat} {f : Finding F} (h : f.campaign? = none) :
    actionFromFinding fresh settings n f = .ok none := by
  have hnot : ¬ (("pausar_campanha" ∈ f.suggestedActions ∨
      "escalar_orcamento" ∈ f.suggestedActions) ∧ namesCampaign f = true) := by
    intro hnamed
    rw [Finding.campaign?, if_pos hnamed] at h
    cases h
  rw [actionFromFinding, if_neg fun hpause => hnot ⟨.inl hpause.1, hpause.2⟩,
    if_neg fun hscale => hnot ⟨.inr hscale.1, hscale.2⟩]

theorem actionsFromFindings_filter {p : Finding F → Bool}
    (hp : ∀ f, f.campaign?.isSome = true → p f = true) (n : Nat) (findings : List (Finding F)) :
    actionsFromFindings fresh settings n (findings.filter p) =
      actionsFromFindings fresh settings n findings := by
  induction findings generalizing n with
  | nil => rfl
  | cons f findings ih =>
    cases hf : p f with
    | true =>
      rw [List.filter_cons_of_pos hf, actionsFromFindings, actionsFromFindings]
      refine congrArg (actionFromFinding fresh settings n f >>= ·) (funext fun a => ?_)
      cases a with
      | none => exact ih n
      | some a => exact congrArg (· >>= fun rest => .ok (a :: rest)) (ih (n + 1))
    | false =>
      have hnone : f.campaign? = none := by
        cases hc : f.campaign? with
        | none => rfl
        | some id =>
          have htrue := hp f (by rw [hc]; rfl)
          rw [hf] at htrue
          cases htrue
      rw [List.filter_cons_of_neg (by simp [hf]), ih, actionsFromFindings,
        actionFromFinding_unnamed hnone]
      rfl

theorem basePriority_filter {p : Finding F → Bool} {action : Action F}
    (hp : ∀ f : Finding F, f.code = action.sourceFinding.getD "" → p f = true)
    (findings : List (Finding F)) :
    basePriority action (findings.filter p) settings = basePriority action findings settings := by
  have hfind : (findings.filter p).reverse.find?
      (fun f => f.code = action.sourceFinding.getD "") =
      findings.reverse.find? (fun f => f.code = action.sourceFinding.getD "") := by
    rw [← List.filter_reverse, List.find?_filter]
    congr 1
    funext f
    by_cases hcode : f.code = action.sourceFinding.getD ""
    · simp [hcode, hp f hcode]
    · simp [hcode]
  rw [basePriority, basePriority, hfind]

theorem rankActions_congr {p : Finding F → Bool} (hsame : ranked.filter p = ranked'.filter p)
    (hp : ∀ a ∈ actions, ∀ f : Finding F, f.code = a.sourceFinding.getD "" → p f = true) :
    rankActions actions ranked settings = rankActions actions ranked' settings := by
  have hrank : actions.mapM (rankAction ranked settings) =
      actions.mapM (rankAction ranked' settings) := by
    refine Exceptions.mapM_congr fun a ha => ?_
    rw [rankAction, rankAction, ← basePriority_filter (hp a ha) ranked, hsame,
      basePriority_filter (hp a ha) ranked']
  rw [rankActions, rankActions, hrank]

theorem source_of_emails {n : Nat} {autoBudget : Int} {replies : List (EmailReply F)}
    {a : Action F} (h : a ∈ actionsFromEmails fresh settings n autoBudget replies) :
    a.sourceFinding.getD "" ∈ sources new := by
  have hnone : "" ∈ sources new := List.mem_append_left _ (by decide)
  have hescalation : "SUPPORT_ESCALATION" ∈ sources new := List.mem_append_left _ (by decide)
  induction replies generalizing n autoBudget with
  | nil => cases h
  | cons r replies ih =>
    rw [actionsFromEmails] at h
    split at h
    · rcases List.mem_cons.mp h with rfl | hrest
      · exact hescalation
      · exact ih hrest
    · split at h
      · rcases List.mem_cons.mp h with rfl | hrest
        · exact hnone
        · exact ih hrest
      · rcases List.mem_cons.mp h with rfl | hrest
        · exact hnone
        · exact ih hrest

theorem source_of_campaigns {n : Nat} {plans : List (CampaignPlan F)} {a : Action F}
    (h : a ∈ actionsFromCampaigns fresh n plans) : a.sourceFinding.getD "" ∈ sources new := by
  have hplan : "ADS_PLAN" ∈ sources new := List.mem_append_left _ (by decide)
  obtain ⟨m, p, rfl⟩ := mem_actionsFromCampaigns h
  exact hplan

theorem source_of_findings (hperm : ranked.Perm new) {n : Nat}
    (h : actionsFromFindings fresh settings n ranked = .ok actions) {a : Action F}
    (ha : a ∈ actions) : a.sourceFinding.getD "" ∈ sources new := by
  obtain ⟨f, hf, m, haction⟩ := mem_actionsFromFindings h ha
  have hmem (hcampaign : f.campaign?.isSome = true) : f.code ∈ sources new :=
    List.mem_append_right _ (List.mem_map.mpr
      ⟨f, List.mem_filter.mpr ⟨hperm.mem_iff.mp hf, hcampaign⟩, rfl⟩)
  rcases actionFromFinding_cases haction with hnone | ⟨id, hid, hpause | ⟨current, -, hraise⟩⟩
  · cases hnone
  · cases hpause
    exact hmem (by rw [hid]; rfl)
  · cases hraise
    exact hmem (by rw [hid]; rfl)

end Lookups

section Thread

variable {F : Type} [Amounts F] (texts : Texts) (settings : Settings F)

abbrev Outcome (F : Type) := List (Action F) × List (Entry F)

-- What a command decides and executes on a thread.
def outcome (s : AgentState F) (r : Request F) : Except CompareError (Outcome F) := do
  let s ← reached texts settings r s
  return (s.actions, executed settings r s)

def completed : Except CompareError (Outcome F) → Bool
  | .ok o => o.2.all (fun e => e.result.isOk)
  | .error _ => false

-- The thread after the command; one that raises is no part of a run of the thread.
def runCommand (s : AgentState F) (r : Request F) : AgentState F :=
  match reached texts settings r s with
  | .ok s' =>
      { s' with
        results := s'.results ++
          (executed settings r s').filterMap (fun e => e.result.toOption)
        degraded := s'.degraded ++ (executed settings r s').flatMap Entry.degraded }
  | .error _ => s

-- The routing of the command, the answer to the question it may raise included.
def routed (r : Request F) : List Intent := (interpreted texts r .empty).routing

-- What the modules find for the command.
def found (r : Request F) : List (Finding F) :=
  (modules settings r (interpreted texts r .empty)).findings

structure Harmless (settings : Settings F) (old new : List (Finding F)) : Prop where
  apart : ∀ f ∈ old, counts new f = false
  comparable : Comparable settings (old ++ new)

structure Renewed (s : AgentState F) (r : Request F) : Prop where
  asked : .clarify ∈ texts.route r.command → s.clarified = false
  replies : s.emailReplies = [] ∨
    .suporte ∈ despachar (routed texts r) ∧ r.mailbox.isOk = true
  account : .manageAds ∈ routed texts r → s.adAccount = none ∨ r.account.isOk = true
  snapshot : .manageAds ∈ routed texts r → r.account.isOk = true → s.snapshot = none ∨
    .analytics ∈ despachar (routed texts r) ∧ r.analytics.isOk = true
  findings : s.findings = [] ∨ Harmless settings s.findings (found texts settings r)

end Thread

section Renewal

variable {F : Type} [Amounts F] {texts : Texts} {settings : Settings F} {r : Request F}
  {s : AgentState F}

omit [Amounts F] in
theorem interpreted_routing (h : .clarify ∈ texts.route r.command → s.clarified = false) :
    (interpreted texts r s).routing = routed texts r := by
  by_cases hvague : .clarify ∈ texts.route r.command
  · have hthread : interpreted texts r s = esclarecer texts r (interpretar texts r s) :=
      if_pos ⟨hvague, h hvague⟩
    have hfresh : interpreted texts r .empty = esclarecer texts r (interpretar texts r .empty) :=
      if_pos ⟨hvague, rfl⟩
    rw [routed, hthread, hfresh]
    rfl
  · have hthread : interpreted texts r s = interpretar texts r s := if_neg fun h => hvague h.1
    have hfresh : interpreted texts r .empty = interpretar texts r .empty :=
      if_neg fun h => hvague h.1
    rw [routed, hthread, hfresh]
    rfl

omit [Amounts F] in
theorem interpreted_kept (texts : Texts) (r : Request F) (s : AgentState F) :
    (interpreted texts r s).findings = s.findings ∧
      (interpreted texts r s).emailReplies = s.emailReplies ∧
      (interpreted texts r s).adAccount = s.adAccount ∧
      (interpreted texts r s).snapshot = s.snapshot := by
  rw [interpreted]
  split <;> exact ⟨rfl, rfl, rfl, rfl⟩

def adsFindings (settings : Settings F) (r : Request F) : List (Finding F) :=
  match r.account with
  | .ok status => checkFunding status settings ++ diagnoseCampaigns (r.insights.getD []) settings
  | .error _ => []

def analyticsFindings (r : Request F) : List (Finding F) :=
  match r.analytics with
  | .ok (_, findings) => findings.map (fun f => signal f.1 f.2.toDict)
  | .error _ => []

def suporteFindings (r : Request F) : List (Finding F) :=
  match r.mailbox with
  | .ok (_, findings) => findings.map (fun f => signal f.1 f.2.toDict)
  | .error _ => []

def gathered (settings : Settings F) (r : Request F) (intents : List Intent) : List (Finding F) :=
  (if Module.ads ∈ despachar intents then adsFindings settings r else []) ++
    (if Module.analytics ∈ despachar intents then analyticsFindings r else []) ++
    (if Module.suporte ∈ despachar intents then suporteFindings r else [])

theorem ads_spec (settings : Settings F) (r : Request F) (s : AgentState F) :
    (ads settings r s).findings = s.findings ++ adsFindings settings r ∧
      (ads settings r s).routing = s.routing ∧
      (ads settings r s).emailReplies = s.emailReplies ∧
      (ads settings r s).snapshot = s.snapshot := by
  rw [ads, adsFindings]
  cases r.account with
  | error e => exact ⟨(List.append_nil _).symm, rfl, rfl, rfl⟩
  | ok status => exact ⟨List.append_assoc _ _ _, rfl, rfl, rfl⟩

omit [Amounts F] in
theorem analytics_spec (r : Request F) (s : AgentState F) :
    (analytics r s).findings = s.findings ++ analyticsFindings r ∧
      (analytics r s).routing = s.routing ∧
      (analytics r s).emailReplies = s.emailReplies ∧
      (analytics r s).adAccount = s.adAccount ∧ (analytics r s).campaigns = s.campaigns := by
  rw [analytics, analyticsFindings]
  cases r.analytics with
  | error e => exact ⟨(List.append_nil _).symm, rfl, rfl, rfl, rfl⟩
  | ok read => exact ⟨rfl, rfl, rfl, rfl, rfl⟩

omit [Amounts F] in
theorem suporte_spec (r : Request F) (s : AgentState F) :
    (suporte r s).findings = s.findings ++ suporteFindings r ∧
      (suporte r s).routing = s.routing ∧ (suporte r s).snapshot = s.snapshot ∧
      (suporte r s).adAccount = s.adAccount ∧ (suporte r s).campaigns = s.campaigns := by
  rw [suporte, suporteFindings]
  cases r.mailbox with
  | error e => exact ⟨(List.append_nil _).symm, rfl, rfl, rfl, rfl⟩
  | ok read => exact ⟨rfl, rfl, rfl, rfl, rfl⟩

-- The modules one after the other, each where the routing asks for it.
def afterAds (settings : Settings F) (r : Request F) (s : AgentState F) : AgentState F :=
  if Module.ads ∈ despachar s.routing then ads settings r s else s

def afterAnalytics (settings : Settings F) (r : Request F) (s : AgentState F) : AgentState F :=
  if Module.analytics ∈ despachar s.routing then analytics r (afterAds settings r s)
  else afterAds settings r s

theorem modules_eq (settings : Settings F) (r : Request F) (s : AgentState F) :
    modules settings r s =
      if Module.suporte ∈ despachar s.routing then suporte r (afterAnalytics settings r s)
      else afterAnalytics settings r s := rfl

theorem afterAds_spec (settings : Settings F) (r : Request F) (s : AgentState F) :
    (afterAds settings r s).findings =
        s.findings ++ (if Module.ads ∈ despachar s.routing then adsFindings settings r else []) ∧
      (afterAds settings r s).routing = s.routing ∧
      (afterAds settings r s).emailReplies = s.emailReplies ∧
      (afterAds settings r s).snapshot = s.snapshot := by
  rw [afterAds]
  split
  · exact ads_spec settings r s
  · exact ⟨(List.append_nil _).symm, rfl, rfl, rfl⟩

theorem afterAnalytics_spec (settings : Settings F) (r : Request F) (s : AgentState F) :
    (afterAnalytics settings r s).findings = (afterAds settings r s).findings ++
        (if Module.analytics ∈ despachar s.routing then analyticsFindings r else []) ∧
      (afterAnalytics settings r s).routing = s.routing ∧
      (afterAnalytics settings r s).emailReplies = s.emailReplies ∧
      (afterAnalytics settings r s).adAccount = (afterAds settings r s).adAccount ∧
      (afterAnalytics settings r s).campaigns = (afterAds settings r s).campaigns := by
  obtain ⟨-, hrouting, hreplies, -⟩ := afterAds_spec settings r s
  rw [afterAnalytics]
  split
  · obtain ⟨hf, hr, he, ha, hc⟩ := analytics_spec r (afterAds settings r s)
    exact ⟨hf, hr.trans hrouting, he.trans hreplies, ha, hc⟩
  · exact ⟨(List.append_nil _).symm, hrouting, hreplies, rfl, rfl⟩

theorem modules_spec (settings : Settings F) (r : Request F) (s : AgentState F) :
    (modules settings r s).findings = s.findings ++ gathered settings r s.routing ∧
      (modules settings r s).routing = s.routing ∧
      (modules settings r s).adAccount = (afterAds settings r s).adAccount ∧
      (modules settings r s).campaigns = (afterAds settings r s).campaigns ∧
      (modules settings r s).snapshot = (afterAnalytics settings r s).snapshot := by
  obtain ⟨hads, -⟩ := afterAds_spec settings r s
  obtain ⟨hf, hr, -, ha, hc⟩ := afterAnalytics_spec settings r s
  rw [modules_eq, gathered]
  split
  · obtain ⟨hf', hr', hs', ha', hc'⟩ := suporte_spec r (afterAnalytics settings r s)
    refine ⟨?_, hr'.trans hr, ha'.trans ha, hc'.trans hc, hs'⟩
    rw [hf', hf, hads]
    simp only [List.append_assoc]
  · refine ⟨?_, hr, ha, hc, rfl⟩
    rw [hf, hads]
    simp only [List.append_assoc, List.append_nil]

theorem modules_replies (settings : Settings F) (r : Request F) (s : AgentState F) :
    (modules settings r s).emailReplies =
      if Module.suporte ∈ despachar s.routing then
        match r.mailbox with
        | .ok (replies, _) => replies
        | .error _ => s.emailReplies
      else s.emailReplies := by
  have hkept := (afterAnalytics_spec settings r s).2.2.1
  rw [modules_eq]
  split
  · rw [suporte]
    cases r.mailbox with
    | error e => exact hkept
    | ok read => rfl
  · exact hkept

theorem afterAds_account (settings : Settings F) (r : Request F) (s : AgentState F) :
    (afterAds settings r s).adAccount =
      if Module.ads ∈ despachar s.routing then
        match r.account with
        | .ok status => some status
        | .error _ => s.adAccount
      else s.adAccount := by
  rw [afterAds]
  split
  · rw [ads]
    cases r.account <;> rfl
  · rfl

theorem afterAds_campaigns {s : AgentState F} (hads : Module.ads ∈ despachar s.routing)
    (haccount : r.account.isOk = true) :
    (afterAds settings r s).campaigns = r.insights.getD [] := by
  rw [afterAds, if_pos hads, ads]
  cases hread : r.account with
  | error e =>
    rw [hread] at haccount
    cases haccount
  | ok status => rfl

theorem afterAnalytics_snapshot (settings : Settings F) (r : Request F) (s : AgentState F) :
    (afterAnalytics settings r s).snapshot =
      if Module.analytics ∈ despachar s.routing then
        match r.analytics with
        | .ok (snapshot, _) => some snapshot
        | .error _ => s.snapshot
      else s.snapshot := by
  have hkept := (afterAds_spec settings r s).2.2.2
  rw [afterAnalytics]
  split
  · rw [analytics]
    cases r.analytics with
    | error e => exact hkept
    | ok read => rfl
  · exact hkept

theorem ads_dispatched {intents : List Intent} (h : .manageAds ∈ intents) :
    Module.ads ∈ despachar intents := by
  have hads : Module.ads ∈ (if .analyzePerformance ∈ intents ∨ .answerQuestion ∈ intents then
        [Module.analytics] else []) ++ (if .handleEmails ∈ intents then [.suporte] else []) ++
      (if .manageAds ∈ intents ∨ .checkAdBudget ∈ intents then [.ads] else []) := by
    rw [if_pos (Or.inl h)]
    exact List.mem_append_right _ (List.mem_singleton_self _)
  simp only [despachar]
  rw [if_neg fun hempty => List.ne_nil_of_mem hads (List.isEmpty_iff.mp hempty)]
  exact hads

theorem found_eq : found texts settings r = gathered settings r (routed texts r) := by
  have hkept := (interpreted_kept texts r (.empty : AgentState F)).1
  rw [found, (modules_spec settings r _).1, hkept]
  rfl

theorem Renewed.modules_findings (h : Renewed texts settings s r) :
    (modules settings r (interpreted texts r s)).findings =
      s.findings ++ found texts settings r := by
  rw [(modules_spec settings r _).1, interpreted_routing h.asked,
    (interpreted_kept texts r s).1, found_eq]

theorem Renewed.modules_replies (h : Renewed texts settings s r) :
    (modules settings r (interpreted texts r s)).emailReplies =
      (modules settings r (interpreted texts r .empty)).emailReplies := by
  rw [Hotmart.modules_replies, Hotmart.modules_replies, interpreted_routing h.asked,
    (interpreted_kept texts r s).2.1, (interpreted_kept texts r .empty).2.1]
  rcases h.replies with hnone | ⟨hsuporte, hmailbox⟩
  · rw [hnone]
    rfl
  · have hfresh : Module.suporte ∈ despachar (interpreted texts r .empty).routing := hsuporte
    rw [if_pos hsuporte, if_pos hfresh]
    cases hread : r.mailbox with
    | error e =>
      rw [hread] at hmailbox
      cases hmailbox
    | ok read => rfl

theorem plansOf_unwanted (h : Intent.manageAds ∉ s.routing) :
    plansOf texts settings s = ([], []) := by
  rw [plansOf]
  split
  · exact if_neg h
  · rfl

theorem Renewed.plans (h : Renewed texts settings s r) :
    plansOf texts settings (modules settings r (interpreted texts r s)) =
      plansOf texts settings (modules settings r (interpreted texts r .empty)) := by
  have hrouting := interpreted_routing h.asked
  obtain ⟨-, -, haccounts, hsnapshots⟩ := interpreted_kept texts r s
  obtain ⟨-, -, haccounts', hsnapshots'⟩ := interpreted_kept texts r (.empty : AgentState F)
  obtain ⟨-, hr, ha, hc, hs⟩ := modules_spec settings r (interpreted texts r s)
  obtain ⟨-, hr', ha', hc', hs'⟩ := modules_spec settings r (interpreted texts r .empty)
  by_cases hmanage : .manageAds ∈ routed texts r
  case neg =>
    rw [plansOf_unwanted (hr.trans hrouting ▸ hmanage), plansOf_unwanted (hr' ▸ hmanage)]
  case pos =>
    rw [plansOf, plansOf, hr, hr', hrouting, ha, ha', hc, hc', hs, hs']
    have hads := ads_dispatched hmanage
    have hfresh : Module.ads ∈ despachar (interpreted texts r .empty).routing := hads
    have hthread : Module.ads ∈ despachar (interpreted texts r s).routing := hrouting ▸ hads
    rw [afterAds_account, afterAds_account, if_pos hthread, if_pos hfresh, haccounts, haccounts']
    cases hread : r.account with
    | error e =>
      rcases h.account hmanage with hnone | hok
      · rw [hnone]
        rfl
      · rw [hread] at hok
        cases hok
    | ok status =>
      have hok : r.account.isOk = true := by rw [hread]; rfl
      have hsnapshot : (afterAnalytics settings r (interpreted texts r s)).snapshot =
          (afterAnalytics settings r (interpreted texts r .empty)).snapshot := by
        rw [afterAnalytics_snapshot, afterAnalytics_snapshot, hrouting, hsnapshots, hsnapshots']
        rcases h.snapshot hmanage hok with hnone | ⟨hanalytics, hread⟩
        · rw [hnone]
          rfl
        · have hfresh : Module.analytics ∈ despachar (interpreted texts r .empty).routing :=
            hanalytics
          rw [if_pos hanalytics, if_pos hfresh]
          cases hdata : r.analytics with
          | error e =>
            rw [hdata] at hread
            cases hread
          | ok read => rfl
      rw [afterAds_campaigns hthread hok, afterAds_campaigns hfresh hok, hsnapshot]
      rfl

end Renewal

section Approvals

variable {F : Type} [Amounts F] {texts : Texts} {settings : Settings F} {r : Request F}
  {approvals approvals' : Approvals}

theorem executeAction_congr {w : Work F}
    (h : w.1.mode = .approval → approvals.get? w.1.id = approvals'.get? w.1.id) :
    executeAction settings approvals w = executeAction settings approvals' w := by
  rw [executeAction, executeAction]
  cases hmode : w.1.mode with
  | approval => simp only [h hmode]
  | auto => rfl
  | recommend => rfl
  | blocked => rfl

theorem entries_congr {work : List (Work F)}
    (h : ∀ w ∈ work, w.1.mode = .approval → approvals.get? w.1.id = approvals'.get? w.1.id) :
    entries settings approvals work = entries settings approvals' work := by
  induction work with
  | nil => rfl
  | cons w rest ih =>
    obtain ⟨hw, hrest⟩ := List.forall_mem_cons.mp h
    rw [entries, entries, executeAction_congr hw, ih hrest]

-- What was decided earlier on the thread says nothing about the pending actions.
theorem aprovar_renews {normalize : String → String} {ordered : List (Action F)}
    {response : Json F} {merged : Approvals}
    (h : aprovar normalize ordered response approvals = .ok merged) :
    ∃ merged', aprovar normalize ordered response approvals' = .ok merged' ∧
      ∀ a ∈ ordered, a.mode = .approval → merged.get? a.id = merged'.get? a.id := by
  obtain ⟨parsed, hparsed, hmerged⟩ := Exceptions.bind_ok h
  cases hmerged
  refine ⟨mergeDicts approvals' parsed, ?_, fun a ha hmode => ?_⟩
  · rw [aprovar, hparsed]
    rfl
  · obtain ⟨picked, rfl⟩ := parseApproval_decisions hparsed
    have hid : a.id ∈ pendingIds ordered :=
      List.mem_map.mpr ⟨a, List.mem_filter.mpr ⟨ha, decide_eq_true hmode⟩, rfl⟩
    rw [get?_mergeDicts, get?_mergeDicts, get?_decisions, if_pos hid, Option.some_or,
      Option.some_or]

theorem approved_renews {d d' s : AgentState F} (hactions : d'.actions = d.actions)
    (h : approved texts r d = .ok s) :
    ∃ s', approved texts r d' = .ok s' ∧ s'.actions = s.actions ∧
      executed settings r s' = executed settings r s := by
  have hsame := approved_actions h
  cases hnode : precisaAprovacao d.actions with
  | aprovar =>
    simp only [approved, hnode] at h
    obtain ⟨merged, hmerged, h⟩ := Exceptions.bind_ok h
    cases h
    obtain ⟨merged', hmerged', hget⟩ := @aprovar_renews _ _ _ d'.approvals _ _ _ _ hmerged
    refine ⟨{ d' with approvals := merged' }, ?_, hactions, ?_⟩
    · simp only [approved, hactions, hnode, hmerged']
      rfl
    · simp only [executed, hactions, hnode]
      exact (entries_congr fun w hw => hget w.1 (mem_worked hw)).symm
  | executar =>
    simp only [approved, hnode] at h
    cases h
    refine ⟨d', by simp only [approved, hactions, hnode], hactions, ?_⟩
    have hnone : ∀ a ∈ d.actions, a.mode ≠ .approval := by
      intro a ha hmode
      have hany : d.actions.any (fun a => a.mode = .approval) = true :=
        List.any_eq_true.mpr ⟨a, ha, decide_eq_true hmode⟩
      rw [precisaAprovacao, if_pos hany] at hnode
      cases hnode
    simp only [executed, hactions, hnode]
    exact entries_congr fun w hw hmode => absurd hmode (hnone w.1 (mem_worked hw))
  | relatar =>
    simp only [approved, hnode] at h
    cases h
    refine ⟨d', by simp only [approved, hactions, hnode], hactions, ?_⟩
    simp only [executed, hactions, hnode]

end Approvals

section Runs

variable {F : Type} [Amounts F] {texts : Texts} {settings : Settings F} {r : Request F}
  {s : AgentState F}

theorem prioritize_of_append {old new ranked : List (Finding F)}
    (h : prioritize (old ++ new) settings = .ok ranked) :
    ∃ ranked', prioritize new settings = .ok ranked' := by
  obtain ⟨l, hl, -⟩ := Exceptions.bind_ok (prioritize_eq settings (old ++ new) ▸ h)
  obtain ⟨-, l', -, hl', -⟩ := Exceptions.mapM_of_append hl
  refine ⟨(l'.mergeSort inOrder).map Prod.fst, ?_⟩
  rw [prioritize_eq, scored, hl']
  rfl

-- Up to the findings that count, the thread ranks what a fresh one ranks.
theorem Renewed.ranked (h : Renewed texts settings s r) {ranked : List (Finding F)}
    (hranked : prioritize (modules settings r (interpreted texts r s)).findings settings =
      .ok ranked) :
    ∃ ranked', prioritize (found texts settings r) settings = .ok ranked' ∧
      ranked.filter (counts (found texts settings r)) =
        ranked'.filter (counts (found texts settings r)) := by
  rw [h.modules_findings] at hranked
  obtain ⟨ranked', hranked'⟩ := prioritize_of_append hranked
  refine ⟨ranked', hranked', ?_⟩
  rcases h.findings with hnone | hharmless
  · rw [hnone, List.nil_append, hranked'] at hranked
    cases hranked
    rfl
  · exact filter_prioritize hharmless.comparable hharmless.apart hranked hranked'

theorem counts_of_campaign {new : List (Finding F)} {f : Finding F}
    (h : f.campaign?.isSome = true) : counts new f = true := by
  rw [counts, h, Bool.true_or]

theorem counts_of_source {new : List (Finding F)} {f : Finding F} (h : f.code ∈ sources new) :
    counts new f = true := by
  rw [counts, decide_eq_true h, Bool.or_true]

theorem source_of_proposed {plans : List (CampaignPlan F)} {new ranked : List (Finding F)}
    {actions : List (Action F)} (hperm : ranked.Perm new)
    (h : proposed settings r.fresh s plans ranked = .ok actions) {a : Action F}
    (ha : a ∈ actions) : a.sourceFinding.getD "" ∈ sources new := by
  obtain ⟨onFindings, hfindings, hactions⟩ := Exceptions.bind_ok h
  cases hactions
  rcases List.mem_append.mp ha with hproposed | hfinding
  · rcases List.mem_append.mp hproposed with hemail | hcampaign
    · exact source_of_emails hemail
    · exact source_of_campaigns hcampaign
  · exact source_of_findings hperm hfindings hfinding

theorem proposed_congr {s' : AgentState F} {fresh : Nat → String} {plans : List (CampaignPlan F)}
    {new ranked ranked' : List (Finding F)} (hreplies : s.emailReplies = s'.emailReplies)
    (hsame : ranked.filter (counts new) = ranked'.filter (counts new)) :
    proposed settings fresh s plans ranked = proposed settings fresh s' plans ranked' := by
  have hfindings (n : Nat) : actionsFromFindings fresh settings n ranked =
      actionsFromFindings fresh settings n ranked' := by
    rw [← actionsFromFindings_filter (fun _ => counts_of_campaign) n ranked, hsame,
      actionsFromFindings_filter (fun _ => counts_of_campaign) n ranked']
  rw [proposed, proposed, hreplies]
  simp only [hfindings]

theorem Renewed.outcome (h : Renewed texts settings s r) {o : Outcome F}
    (ho : outcome texts settings s r = .ok o) : outcome texts settings .empty r = .ok o := by
  obtain ⟨s', hreached, hout⟩ := Exceptions.bind_ok ho
  obtain ⟨d, hd, happroved⟩ := Exceptions.bind_ok hreached
  obtain ⟨ranked, hranked, hd⟩ := Exceptions.bind_ok hd
  obtain ⟨actions, hactions, hd⟩ := Exceptions.bind_ok hd
  obtain ⟨ordered, hordered, hd⟩ := Exceptions.bind_ok hd
  cases hd
  obtain ⟨ranked', hranked', hsame⟩ := h.ranked hranked
  have hproposed : proposed settings r.fresh (modules settings r (interpreted texts r .empty))
      (plansOf texts settings (modules settings r (interpreted texts r .empty))).1 ranked' =
      .ok actions := by
    rw [← hactions, h.plans]
    exact (proposed_congr h.modules_replies hsame).symm
  have hrank : rankActions actions ranked' settings = .ok ordered := by
    rw [← hordered]
    refine (rankActions_congr hsame fun a ha f hcode => counts_of_source ?_).symm
    rw [hcode]
    exact source_of_proposed (prioritize_perm hranked') hproposed ha
  have hfound : prioritize (modules settings r (interpreted texts r .empty)).findings settings =
      .ok ranked' := hranked'
  obtain ⟨d', hd', hordered'⟩ : ∃ d', decidir texts settings r
      (modules settings r (interpreted texts r .empty)) = .ok d' ∧ d'.actions = ordered := by
    rw [decidir]
    simp only [hfound, hproposed, hrank, bind, Except.bind, pure, Except.pure]
    exact ⟨_, rfl, rfl⟩
  obtain ⟨s'', happroved', hactions', hexecuted⟩ :=
    @approved_renews _ _ _ settings _ _ d' _ hordered' happroved
  cases hout
  have hfresh : reached texts settings r .empty = .ok s'' := by
    rw [reached, hd']
    exact happroved'
  rw [Hotmart.outcome, hfresh, ← hactions', ← hexecuted]
  rfl

structure Renews (texts : Texts) (settings : Settings F) (s : AgentState F) (r : Request F) :
    Prop where
  completed : completed (Hotmart.outcome texts settings s r) = true
  renewed : Renewed texts settings s r

theorem commands_repeat_nothing {rs : List (Request F)}
    (h : EachStep (runCommand texts settings) (Renews texts settings) .empty rs) :
    EachStep (runCommand texts settings)
      (fun s r => outcome texts settings s r = outcome texts settings .empty r) .empty rs := by
  intro before r hprefix
  obtain ⟨hcompleted, hrenewed⟩ := h before r hprefix
  cases ho : outcome texts settings (run (runCommand texts settings) .empty before) r with
  | error e =>
    rw [ho] at hcompleted
    cases hcompleted
  | ok o => exact (hrenewed.outcome ho).symm

end Runs

def question : EmailReply Rat where
  emailId := "m1"
  recipient := "ana@example.com"
  subject := "Acesso"
  body := "Segue o link."
  triage := ⟨"acesso", 0.9, "neutro", []⟩
  autoSendable := true
  reason := "confiança 90%"

def byCommand : Texts where
  route command := if command = "responder e-mails" then [.handleEmails] else [.analyzePerformance]
  strip := id
  lower := id

def commandRequest (command : String) : Request Rat where
  command := command
  clarification := ""
  analytics := .ok (⟨10, 20, 0, []⟩, [])
  mailbox := .ok ([question], [])
  account := .ok fundedAccount
  insights := none
  approval := .null
  replies := fun _ => []
  fresh := fun n => command ++ toString n

def readMail : Request Rat := commandRequest "responder e-mails"

def readSales : Request Rat := commandRequest "analisar vendas"

theorem mail_read_again {s : AgentState Rat} (hclarified : s.clarified = false)
    (hfindings : s.findings = []) : Renewed byCommand (liveSettings .autonomous) s readMail where
  asked _ := hclarified
  replies := .inr ⟨by decide, rfl⟩
  account h := absurd h (by decide)
  snapshot h := absurd h (by decide)
  findings := .inl hfindings

theorem commands_repeat_nothing_mail :
    EachStep (runCommand byCommand (liveSettings .autonomous))
      (fun s r => outcome byCommand (liveSettings .autonomous) s r =
        outcome byCommand (liveSettings .autonomous) .empty r) .empty [readMail, readMail] := by
  refine commands_repeat_nothing (eachStep_cons.mpr ⟨⟨by decide +kernel, mail_read_again rfl rfl⟩,
    eachStep_cons.mpr ⟨⟨by decide +kernel, mail_read_again (by decide +kernel) ?_⟩, eachStep_nil⟩⟩)
  exact List.length_eq_zero_iff.mp (by decide +kernel)

theorem question_answered_again :
    ¬ ∀ (texts : Texts) (settings : Settings Rat) (rs : List (Request Rat)),
      EachStep (runCommand texts settings)
        (fun s r => completed (outcome texts settings s r) = true) .empty rs →
      EachStep (runCommand texts settings)
        (fun s r => outcome texts settings s r = outcome texts settings .empty r) .empty rs := by
  intro h
  have hall := h byCommand (liveSettings .autonomous) [readMail, readSales] (by
    refine eachStep_cons.mpr ⟨by decide +kernel, eachStep_cons.mpr ⟨by decide +kernel, eachStep_nil⟩⟩)
  have hsecond := (eachStep_cons.mp (eachStep_cons.mp hall).2).1
  have hagain : ((outcome byCommand (liveSettings .autonomous)
      (runCommand byCommand (liveSettings .autonomous) .empty readMail) readSales).toOption.map
        (fun o => (callsOf o.2).length)) = some 2 := by decide +kernel
  have hfresh : ((outcome byCommand (liveSettings .autonomous) .empty readSales).toOption.map
        (fun o => (callsOf o.2).length)) = some 0 := by decide +kernel
  rw [hsecond, hfresh] at hagain
  cases hagain

end Hotmart

end LangGraph
