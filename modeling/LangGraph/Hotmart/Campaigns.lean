import LangGraph.Hotmart.Ads

namespace LangGraph

open Collections Store

namespace Hotmart

variable {F : Type} [Amounts F]

def audienceBase : List (String × Json F) :=
  [("geo_locations", .dict [("countries", .list [.str "BR"])]), ("age_min", .int 22),
    ("age_max", .int 55)]

def customAudience (id : String) : Json F := .list [.dict [("id", .str id)]]

def audienceSpec (kind : String) (settings : Settings F) : List (String × Json F) :=
  let pixel := if settings.metaPixelId = "" then "PIXEL_ID" else settings.metaPixelId
  if kind = "retarget_checkout" then
    audienceBase ++ [("custom_audiences", customAudience ("ca:initiate_checkout_7d:" ++ pixel))]
  else if kind = "lookalike_purchasers" then
    audienceBase ++ [("custom_audiences", customAudience ("lal:1pct:purchasers_180d:" ++ pixel))]
  else if kind = "leads_nao_compradores" then
    audienceBase ++ [("custom_audiences", customAudience ("ca:leads_60d:" ++ pixel)),
      ("excluded_custom_audiences", customAudience ("ca:purchasers_180d:" ++ pixel))]
  else if kind = "broad" then
    audienceBase ++ [("targeting_automation", .dict [("advantage_audience", .int 1)])]
  else audienceBase

def isActive (c : CampaignPerformance F) : Bool := c.status = "ACTIVE"

def running (campaigns : List (CampaignPerformance F)) : List String :=
  (campaigns.filter isActive).map CampaignPerformance.name

def abandonment (current : Option (SalesWindow F)) : F :=
  match current with
  | some w =>
      if w.checkoutSessions ≠ 0 then
        1.0 - Amounts.count w.units / Amounts.count w.checkoutSessions
      else 0.0
  | none => 0.0

def bestOrganic (current : Option (SalesWindow F)) : String :=
  let organic := (current.elim [] SalesWindow.bySource).filter (fun s => Floats.eqInt s.adSpend 0)
  match organic with
  | [] => ""
  | s :: rest => (rest.foldl (fun best s => if best.units < s.units then s else best) s).source

def averageCpa (campaigns : List (CampaignPerformance F)) : F :=
  let active := campaigns.filter (fun c => isActive c && c.purchases ≠ 0)
  if active.isEmpty then 0.0
  else (active.map CampaignPerformance.spend).foldl (· + ·) 0.0 /
    Amounts.count (active.map CampaignPerformance.purchases).sum

def retargetCheckout (current : Option (SalesWindow F)) (settings : Settings F) : CampaignPlan F :=
  let price := settings.product.price
  let cap := settings.guardrails.maxDailyBudget
  { blueprint := "retarget_checkout_7d"
    name := "[VENDAS] Remarketing checkout 7d — " ++ settings.product.name
    objective := "OUTCOME_SALES"
    optimizationGoal := "OFFSITE_CONVERSIONS"
    dailyBudget := Amounts.min (cap * 0.25) (Amounts.max 15.0 (price * 0.2))
    audience := "Quem iniciou o checkout nos últimos 7 dias e não comprou"
    audienceSpec := audienceSpec "retarget_checkout" settings
    creativeAngle := "Quebra de objeção direta: garantia de " ++
      toString settings.product.guaranteeDays ++ " dias + prova social"
    expectedCpa := Amounts.round (price * 0.18) 2
    expectedRoas := Amounts.round (1.0 / 0.18) 2
    score := 3.0 + 4.0 * abandonment current
    rationale := match current with
      | some _ => "Abandono de checkout em " ++ Amounts.pct (abandonment current) 0 ++
          ": público quente, volume baixo e CPA historicamente o menor do funil."
      | none => "Público quente e de menor CPA do funil. Sem dados de venda nesta execução, a " ++
          "estimativa de volume é conservadora."
    startPaused := settings.guardrails.newCampaignsStartPaused }

def largeBase (current : Option (SalesWindow F)) : Bool :=
  current.any (fun w => 100 ≤ w.units)

def lookalikePurchasers (current : Option (SalesWindow F)) (settings : Settings F) :
    CampaignPlan F :=
  let price := settings.product.price
  let cap := settings.guardrails.maxDailyBudget
  let best := bestOrganic current
  { blueprint := "lookalike_purchasers_1"
    name := "[VENDAS] Lookalike 1% compradores — " ++ settings.product.name
    objective := "OUTCOME_SALES"
    optimizationGoal := "OFFSITE_CONVERSIONS"
    dailyBudget := Amounts.min (cap * 0.4) (Amounts.max 30.0 (price * 0.5))
    audience := "Público semelhante (1%) aos compradores dos últimos 180 dias"
    audienceSpec := audienceSpec "lookalike_purchasers" settings
    creativeAngle := "Ângulo do canal que mais converte hoje (" ++
      (if best = "" then "orgânico" else best) ++ ")"
    expectedCpa := Amounts.round (price * 0.35) 2
    expectedRoas := Amounts.round (1.0 / 0.35) 2
    score := 2.5 + if largeBase current then 1.5 else 0.0
    rationale := if largeBase current then
        "Base de compradores já é suficiente para gerar semelhante estável."
      else "Base ainda pequena; o semelhante fica instável, mas serve como teste controlado."
    startPaused := settings.guardrails.newCampaignsStartPaused }

def broadProspecting (campaigns : List (CampaignPerformance F)) (settings : Settings F) :
    CampaignPlan F :=
  let price := settings.product.price
  let cap := settings.guardrails.maxDailyBudget
  { blueprint := "broad_prospecting"
    name := "[VENDAS] Público amplo (Advantage+) — " ++ settings.product.name
    objective := "OUTCOME_SALES"
    optimizationGoal := "OFFSITE_CONVERSIONS"
    dailyBudget := Amounts.min (cap * 0.5) (Amounts.max 40.0 (price * 0.6))
    audience := "Amplo com automação de público, Brasil, 22–55 anos"
    audienceSpec := audienceSpec "broad" settings
    creativeAngle := "3 variações de criativo para o algoritmo escolher"
    expectedCpa := Amounts.round (price * 0.45) 2
    expectedRoas := Amounts.round (1.0 / 0.45) 2
    score := if (running campaigns).isEmpty then 2.0 else 1.2
    rationale := "Descoberta de novo público. Só faz sentido com verba folgada e pixel maduro."
    startPaused := settings.guardrails.newCampaignsStartPaused }

def leadMagnetCapture (campaigns : List (CampaignPerformance F)) (settings : Settings F) :
    CampaignPlan F :=
  let price := settings.product.price
  let cap := settings.guardrails.maxDailyBudget
  let cpa := averageCpa campaigns
  let dear := Amounts.nonzero cpa &&
    Amounts.gt cpa (price * settings.thresholds.cpaCriticalRatio)
  { blueprint := "lead_magnet_capture"
    name := "[LEADS] Isca digital — " ++ settings.product.name
    objective := "OUTCOME_LEADS"
    optimizationGoal := "LEAD_GENERATION"
    dailyBudget := Amounts.min (cap * 0.3) 25.0
    audience := "Interesses do nicho, Brasil, excluindo compradores"
    audienceSpec := audienceSpec "broad" settings
    creativeAngle := "Capítulo gratuito em troca do e-mail, venda por sequência"
    expectedCpa := Amounts.round (price * 0.08) 2
    expectedRoas := 0.0
    score := if dear then 3.8 else 1.0
    rationale := if dear then
        "CPA direto em " ++ Amounts.brl cpa ++
          ", acima do teto: vender por lista reduz o custo de aquisição por venda."
      else "Alternativa de médio prazo; não gera receita imediata."
    startPaused := settings.guardrails.newCampaignsStartPaused }

def reactivationLeads (current : Option (SalesWindow F)) (settings : Settings F) :
    CampaignPlan F :=
  let price := settings.product.price
  let cap := settings.guardrails.maxDailyBudget
  let pending := current.elim 0 SalesWindow.pendingBillets
  { blueprint := "reactivation_leads"
    name := "[VENDAS] Reativação de leads — " ++ settings.product.name
    objective := "OUTCOME_SALES"
    optimizationGoal := "OFFSITE_CONVERSIONS"
    dailyBudget := Amounts.min (cap * 0.2) 15.0
    audience := "Leads dos últimos 60 dias que não compraram"
    audienceSpec := audienceSpec "leads_nao_compradores" settings
    creativeAngle := "Oferta por tempo limitado com bônus exclusivo"
    expectedCpa := Amounts.round (price * 0.22) 2
    expectedRoas := Amounts.round (1.0 / 0.22) 2
    score := 1.8 + if 5 ≤ pending then 1.2 else 0.0
    rationale := if 5 ≤ pending then
        toString pending ++ " pagamentos pendentes indicam intenção não concluída na base."
      else "Público morno de baixo custo."
    startPaused := settings.guardrails.newCampaignsStartPaused }

def keyword (p : CampaignPlan F) : List Char := p.blueprint.toList.takeWhile (· ≠ '_')

-- `lower` is `str.lower`.
def penalised (lower : String → String) (names : List String) (p : CampaignPlan F) :
    CampaignPlan F :=
  if names.any (fun name => decide (keyword p <:+: (lower name).toList)) then
    { p with score := p.score - 0.8 }
  else p

def buildCampaignCatalog (lower : String → String) (current : Option (SalesWindow F))
    (campaigns : List (CampaignPerformance F)) (settings : Settings F) : List (CampaignPlan F) :=
  let catalog := [retargetCheckout current settings, lookalikePurchasers current settings,
    broadProspecting campaigns settings, leadMagnetCapture campaigns settings,
    reactivationLeads current settings]
  (catalog.map (penalised lower (running campaigns))).mergeSort
    (fun a b => !Floats.lt a.score b.score)

structure Selection (F : Type) where
  approved : List (CampaignPlan F)
  notes : List String
  budgetUsed : F

def Selection.refuse (s : Selection F) (p : CampaignPlan F) (why : String) : Selection F :=
  { s with notes := s.notes ++ ["'" ++ p.name ++ "' fora: " ++ why] }

def capped (g : Guardrails F) (p : CampaignPlan F) : CampaignPlan F :=
  if Amounts.gt p.dailyBudget g.maxDailyBudget then { p with dailyBudget := g.maxDailyBudget }
  else p

def Selection.noted (g : Guardrails F) (s : Selection F) (p : CampaignPlan F) : Selection F :=
  if Amounts.gt p.dailyBudget g.maxDailyBudget then
    { s with notes := s.notes ++ ["'" ++ p.name ++ "': orçamento reduzido ao teto de " ++
      Amounts.brl g.maxDailyBudget] }
  else s

-- Three days of delivery have to fit into what the account has left.
def Selection.weigh (available : F) (s : Selection F) (p : CampaignPlan F) : Selection F :=
  let required := (s.budgetUsed + p.dailyBudget) * 3.0
  if !Floats.eq available Amounts.inf && Amounts.gt required available then
    s.refuse p ("exige " ++ Amounts.brl required ++ " para 3 dias e há " ++
      Amounts.brl available ++ " disponíveis")
  else if Floats.le p.score 0.0 then s.refuse p "pontuação insuficiente no contexto atual"
  else
    { s with
      approved := s.approved ++ [p]
      budgetUsed := s.budgetUsed + p.dailyBudget }

def Selection.consider (g : Guardrails F) (available : F) (s : Selection F)
    (p : CampaignPlan F) : Selection F :=
  if g.maxNewCampaignsPerRun ≤ s.approved.length then
    s.refuse p ("limite de " ++ toString g.maxNewCampaignsPerRun ++
      " campanhas novas por execução")
  else (s.noted g p).weigh available (capped g p)

def selectCampaigns (catalog : List (CampaignPlan F)) (status : AdAccountStatus F)
    (settings : Settings F) : List (CampaignPlan F) × List String :=
  if !status.isActive then
    ([], ["conta de anúncios inativa: nenhum plano pode ser executado"])
  else
    let s := catalog.foldl (Selection.consider settings.guardrails status.available) ⟨[], [], 0.0⟩
    (s.approved, s.notes)

section Selected

variable {g : Guardrails F} {available : F} {s : Selection F} {p : CampaignPlan F}

theorem Selection.approved_weigh (available : F) (s : Selection F) (p : CampaignPlan F) :
    (s.weigh available p).approved = s.approved ∨
      (s.weigh available p).approved = s.approved ++ [p] := by
  rw [weigh]
  split
  · exact .inl rfl
  · split
    · exact .inl rfl
    · exact .inr rfl

theorem Selection.approved_noted (g : Guardrails F) (s : Selection F) (p : CampaignPlan F) :
    (s.noted g p).approved = s.approved := by
  rw [noted]
  split <;> rfl

theorem Selection.length_consider (h : s.approved.length ≤ g.maxNewCampaignsPerRun.toNat) :
    (s.consider g available p).approved.length ≤ g.maxNewCampaignsPerRun.toNat := by
  rw [consider]
  split
  · exact h
  · rename_i hroom
    have hnoted := Selection.approved_noted g s p
    rcases (s.noted g p).approved_weigh available (capped g p) with hsame | hadded
    · rw [hsame, hnoted]
      exact h
    · rw [hadded, hnoted, List.length_append, List.length_singleton]
      omega

theorem selectCampaigns_length (catalog : List (CampaignPlan F)) (status : AdAccountStatus F)
    (settings : Settings F) :
    (selectCampaigns catalog status settings).1.length ≤
      settings.guardrails.maxNewCampaignsPerRun.toNat := by
  have hfold (s : Selection F)
      (h : s.approved.length ≤ settings.guardrails.maxNewCampaignsPerRun.toNat) :
      (catalog.foldl (Selection.consider settings.guardrails status.available) s).approved.length ≤
        settings.guardrails.maxNewCampaignsPerRun.toNat := by
    induction catalog generalizing s with
    | nil => exact h
    | cons p catalog ih => exact ih _ (Selection.length_consider h)
  rw [selectCampaigns]
  split
  · exact Nat.zero_le _
  · exact hfold ⟨[], [], 0.0⟩ (Nat.zero_le _)

theorem selectCampaigns_inactive {status : AdAccountStatus F} (h : status.isActive = false)
    (catalog : List (CampaignPlan F)) (settings : Settings F) :
    (selectCampaigns catalog status settings).1 = [] := by
  rw [selectCampaigns, h]
  rfl

end Selected

end Hotmart

end LangGraph
