import LangGraph.Collections.Exceptions
import LangGraph.Hotmart.FloatLaws
import LangGraph.Hotmart.Graph

namespace LangGraph

open Collections Store

namespace Hotmart

inductive EmailCategory where
  | access
  | payment
  | refund
  | content
  | invoice
  | technical
  | affiliate
  | partnership
  | complaint
  | spam
  | other
  deriving DecidableEq

namespace EmailCategory

def value : EmailCategory → String
  | access => "acesso"
  | payment => "pagamento"
  | refund => "reembolso"
  | content => "duvida_conteudo"
  | invoice => "nota_fiscal"
  | technical => "tecnico"
  | affiliate => "afiliado"
  | partnership => "parceria"
  | complaint => "reclamacao"
  | spam => "spam"
  | other => "outro"

def all : List EmailCategory :=
  [access, payment, refund, content, invoice, technical, affiliate, partnership, complaint, spam,
    other]

-- `EmailCategory(value)`
def ofJson {F : Type} : Json F → Option EmailCategory
  | .str s => all.find? (fun c => c.value = s)
  | _ => none

end EmailCategory

namespace Support

section Tables

def keywords {F : Type} [OfScientific F] : List (EmailCategory × List (String × F)) :=
  [(.access, [("nao recebi", 3.0), ("nao chegou", 2.5), ("acesso", 2.0), ("login", 2.0),
      ("senha", 1.5), ("liberar", 1.5), ("como faco para baixar", 2.0), ("link do ebook", 2.5),
      ("area de membros", 2.5), ("hotmart club", 2.0), ("spam", 1.0)]),
    (.payment, [("boleto", 3.0), ("pix", 2.5), ("comprovante", 2.5), ("paguei", 2.5),
      ("cartao recusado", 3.0), ("cobranca duplicada", 3.0), ("cobrado duas vezes", 3.0),
      ("parcelamento", 2.0), ("nao liberou", 1.5)]),
    (.refund, [("reembolso", 3.5), ("estorno", 3.0), ("dinheiro de volta", 3.0),
      ("cancelar a compra", 2.5), ("garantia", 2.0), ("desistir", 2.0), ("arrependimento", 2.0)]),
    (.content, [("capitulo", 2.5), ("pagina do ebook", 2.0), ("duvida sobre", 2.0),
      ("planilha", 2.0), ("exercicio", 1.5), ("bonus", 1.5), ("como aplicar", 1.5)]),
    (.invoice, [("nota fiscal", 3.5), ("nf-e", 3.0), ("cnpj", 2.0), ("recibo", 2.0),
      ("comprovante fiscal", 2.5)]),
    (.technical, [("pdf nao abre", 3.0), ("erro ao baixar", 3.0), ("arquivo corrompido", 3.0),
      ("nao consigo abrir", 2.5), ("kindle", 2.0), ("epub", 2.0), ("celular", 1.0)]),
    (.affiliate, [("afiliad", 3.5), ("divulgar", 2.0), ("comissao", 2.5), ("seguidores", 1.5)]),
    (.partnership, [("parceria", 3.0), ("permuta", 2.5), ("publieditorial", 2.5),
      ("proposta comercial", 2.0)]),
    (.complaint, [("procon", 4.0), ("reclame aqui", 4.0), ("advogado", 4.0), ("processo", 3.0),
      ("golpe", 3.5), ("estelionato", 4.0), ("absurdo", 2.0), ("pessimo", 2.0),
      ("chargeback", 3.5)]),
    (.spam, [("oferta imperdivel", 3.0), ("clique aqui e", 2.5), ("aumente suas vendas", 3.0),
      ("robo de trafego", 3.0), ("triplique seu faturamento", 3.0),
      ("marketing digital gratis", 2.5)])]

def escalationTerms : List (String × String) :=
  [("procon", "juridico"), ("advogado", "juridico"), ("processo", "juridico"),
    ("justica", "juridico"), ("estelionato", "juridico"), ("golpe", "reputacao"),
    ("reclame aqui", "reputacao"), ("imprensa", "reputacao"), ("jornalista", "reputacao"),
    ("chargeback", "chargeback"), ("contestar no cartao", "chargeback"), ("lgpd", "privacidade"),
    ("excluir meus dados", "privacidade")]

def hostileTerms : List String :=
  ["absurdo", "vergonha", "palhacada", "ladrao", "pessimo", "enganado"]

def autoReplyable : List EmailCategory :=
  [.access, .payment, .content, .technical, .invoice, .spam]

end Tables

-- The string functions that rest on Unicode's tables: `lower`, NFKD, `combining`, `isalpha` and
-- `capitalize`.
structure Unicode where
  lower : String → String
  nfkd : List Char → List Char
  combining : Char → Bool
  isAlpha : List Char → Bool
  capitalize : List Char → String

structure InboundEmail where
  id : String
  sender : String
  subject : String
  body : String

structure MailTriage (F : Type) where
  emailId : String
  category : EmailCategory
  confidence : F
  sentiment : String
  urgency : String
  flags : List String
  matchedTerms : List String
  classifier : String

def MailTriage.toTriage {F : Type} (t : MailTriage F) : Triage F :=
  ⟨t.category.value, t.confidence, t.sentiment, t.flags⟩

structure SupportSettings (F : Type) extends Settings F where
  autoReplyMinConfidence : F
  salesPageUrl : String
  supportSignature : String

section Classify

variable {F : Type} [Amounts F] (u : Unicode)

def normalize (text : String) : List Char :=
  (u.nfkd (u.lower text).toList).filter (fun c => !u.combining c)

def haystack (mail : InboundEmail) : List Char := normalize u (mail.subject ++ "\n" ++ mail.body)

def contains (mail : InboundEmail) (term : String) : Bool :=
  decide (normalize u term <:+: haystack u mail)

def hits (mail : InboundEmail) (terms : List (String × F)) : List (String × F) :=
  terms.filter (fun t => contains u mail t.1)

def total (hits : List (String × F)) : F := (hits.map Prod.snd).foldl (· + ·) 0.0

def scores (mail : InboundEmail) : List (EmailCategory × F) :=
  (keywords.map (fun c => (c.1, total (hits u mail c.2)))).filter (fun c => Amounts.nonzero c.2)

def matched (F : Type) [Amounts F] (mail : InboundEmail) (category : EmailCategory) :
    List String :=
  ((Dict.lookup category (keywords : List (EmailCategory × List (String × F)))).getD []
    |> hits u mail).map Prod.fst

def flags (mail : InboundEmail) : List String :=
  (((escalationTerms.filter (fun t => contains u mail t.1)).map Prod.snd).dedup).mergeSort
    (fun a b => a ≤ b)

def hostile (mail : InboundEmail) : Bool := hostileTerms.any (contains u mail)

def classify (mail : InboundEmail) : MailTriage F :=
  let scored : List (EmailCategory × F) := scores u mail
  match scored.mergeSort (fun a b => !Floats.lt a.2 b.2) with
  | [] => ⟨mail.id, .other, 0.0, "neutro", "normal", [], [], "rules"⟩
  | (top, topScore) :: rest =>
      let runnerUp := (rest.head?.map Prod.snd).getD 0.0
      let separation := (topScore - runnerUp) / topScore
      let confidence :=
        Amounts.min 0.95 (0.30 + 0.35 * separation + Amounts.min topScore 7.0 / 23.0)
      let flags := flags u mail
      let sentiment := if hostile u mail = true ∧ flags ≠ [] then "hostil"
        else if hostile u mail then "negativo" else "neutro"
      let urgency := if flags ≠ [] ∨ top = .complaint then "alta" else "normal"
      let dominated := flags ≠ [] ∧ top ≠ .complaint ∧ top ≠ .refund
      let top := if dominated then .complaint else top
      let confidence := if dominated then Amounts.max confidence 0.9 else confidence
      ⟨mail.id, top, Amounts.round confidence 3, sentiment, urgency, flags,
        (if scored.any (fun c => c.1 = top) then matched u F mail top else []).take 6,
        "rules"⟩

end Classify

section Decide

variable {F : Type} [Amounts F]

def decideAutoSend (triage : MailTriage F) (settings : SupportSettings F) : Bool × String :=
  if triage.flags ≠ [] then
    (false, "sinal de escalonamento (" ++ ", ".intercalate triage.flags ++ ")")
  else if triage.sentiment = "hostil" ∨ triage.sentiment = "negativo" then
    (false, "tom negativo do cliente exige resposta humana")
  else if triage.category ∉ autoReplyable then
    (false, "categoria '" ++ triage.category.value ++ "' exige revisão humana")
  else if Floats.lt triage.confidence settings.autoReplyMinConfidence then
    (false, "confiança " ++ Amounts.pct triage.confidence 0 ++ " abaixo do mínimo (" ++
      Amounts.pct settings.autoReplyMinConfidence 0 ++ ")")
  else if triage.category = .spam then (false, "spam: arquivar sem resposta")
  else (true, "categoria recorrente com resposta padronizada")

def classifierSystem : String :=
  "Você classifica e-mails de suporte de um ebook vendido na Hotmart.\n" ++
  "Devolva SOMENTE um JSON com as chaves:\n" ++
  "  category: uma de [\"acesso\",\"pagamento\",\"reembolso\",\"duvida_conteudo\"," ++
  "\"nota_fiscal\",\"tecnico\",\"afiliado\",\"parceria\",\"reclamacao\",\"spam\",\"outro\"]\n" ++
  "  confidence: número entre 0 e 1\n" ++
  "  sentiment: um de \"positivo\",\"neutro\",\"negativo\",\"hostil\"\n" ++
  "  urgency: um de \"baixa\",\"normal\",\"alta\"\n" ++
  "Não invente informação sobre a compra. Se o e-mail mencionar Procon, advogado,\n" ++
  "Reclame Aqui ou chargeback, a categoria é \"reclamacao\"."

def prompt (mail : InboundEmail) : String :=
  "Assunto: " ++ mail.subject ++ "\n\nCorpo:\n" ++ String.ofList (mail.body.toList.take 2000)

def orElse (v default : Json F) : Json F := if Amounts.truthy v then v else default

-- `complete_json` of the two texts; without a usable answer it gives none.
abbrev CompleteJson (F : Type) := String → String → Option (List (String × Json F))

variable (u : Unicode) (completeJson : CompleteJson F) (settings : SupportSettings F)

def overridden (triage : MailTriage F) (category : EmailCategory)
    (parsed : List (String × Json F)) : Except CompareError (MailTriage F) := do
  let confidence ← (orElse (field parsed "confidence" .null) (.float 0.5)).toFloat
  return { triage with
    category := category
    classifier := "llm"
    confidence := Amounts.round (Amounts.min confidence (settings.autoReplyMinConfidence - 0.01)) 3
    sentiment := Amounts.text (orElse (field parsed "sentiment" .null) (.str triage.sentiment))
    urgency := Amounts.text (orElse (field parsed "urgency" .null) (.str triage.urgency)) }

def classifyEmail (mail : InboundEmail) : Except CompareError (MailTriage F) :=
  let triage : MailTriage F := classify u mail
  if Floats.le settings.autoReplyMinConfidence triage.confidence = true ∨ triage.flags ≠ [] then
    .ok triage
  else
    match completeJson classifierSystem (prompt mail) with
    | none | some [] => .ok triage
    | some parsed =>
        match EmailCategory.ofJson (field parsed "category" (.str "")) with
        | none => .ok triage
        | some category => overridden settings triage category parsed

end Decide

section Replies

variable {F : Type} [Amounts F]

-- The four fields of `template.format`.
structure Filled where
  name : String
  product : String
  clubUrl : String
  signature : String

def Filled.letter (f : Filled) (text : String) : String :=
  "Olá, " ++ f.name ++ "!\n\n" ++ text ++ "\n\n" ++ f.signature

def templates : List (EmailCategory × (Filled → String)) :=
  [(.access, fun f => f.letter (
      "Localizamos a sua compra do " ++ f.product ++ " e o acesso já foi reenviado para " ++
      "este mesmo e-mail. Se não aparecer em até 10 minutos:\n\n" ++
      "1. Verifique as abas Promoções e Spam;\n" ++
      "2. Acesse " ++ f.clubUrl ++ " e entre com o e-mail usado na compra;\n" ++
      "3. Use a opção \"Esqueci minha senha\" para definir uma nova.\n\n" ++
      "Se ainda assim não conseguir, responda esta mensagem informando o e-mail " ++
      "usado na compra que liberamos o acesso manualmente.")),
    (.payment, fun f => f.letter (
      "Obrigado pelo aviso. Pagamentos por boleto levam de 1 a 3 dias úteis para " ++
      "compensar, e por PIX a liberação costuma ser em minutos. Assim que a " ++
      "Hotmart confirmar, o acesso ao " ++ f.product ++ " é enviado automaticamente para " ++
      "o seu e-mail.\n\n" ++
      "Se já se passaram mais de 3 dias úteis do pagamento, responda esta " ++
      "mensagem com o comprovante que verificamos diretamente com a plataforma.")),
    (.content, fun f => f.letter (
      "Obrigado pela pergunta sobre o " ++ f.product ++ " — é justamente esse tipo de dúvida " ++
      "que mostra que o material está sendo aplicado.\n\n" ++
      "Todos os materiais complementares (planilhas, checklists e bônus) ficam na " ++
      "área de materiais dentro de " ++ f.clubUrl ++ ", no mesmo módulo do capítulo " ++
      "correspondente.\n\n" ++
      "Se a sua dúvida for sobre a aplicação prática do conteúdo, responda com um " ++
      "pouco mais de detalhe do seu caso que orientamos o próximo passo.")),
    (.technical, fun f => f.letter (
      "Vamos resolver. O " ++ f.product ++ " é entregue em PDF e funciona em qualquer " ++
      "leitor. Se o arquivo não abrir:\n\n" ++
      "1. Baixe novamente pelo computador (downloads pelo navegador do celular " ++
      "às vezes vêm incompletos);\n" ++
      "2. Abra com Adobe Acrobat Reader ou com o próprio navegador;\n" ++
      "3. Confirme que o download chegou ao fim antes de abrir.\n\n" ++
      "Se o problema continuar, informe o aparelho e o programa que está usando " ++
      "que enviamos uma versão alternativa do arquivo.")),
    (.invoice, fun f => f.letter (
      "A nota fiscal da compra do " ++ f.product ++ " é emitida pela Hotmart, que é a " ++
      "processadora do pagamento. Para obtê-la:\n\n" ++
      "1. Acesse hotmart.com/pt-br e entre com o e-mail da compra;\n" ++
      "2. Vá em Minhas compras e selecione o pedido;\n" ++
      "3. Clique em Nota fiscal / Comprovante.\n\n" ++
      "Se precisar da nota em CNPJ e a compra foi feita em CPF, responda com os " ++
      "dados corretos que solicitamos o ajuste junto à plataforma.")),
    (.refund, fun f => f.letter (
      "Sem problema — a sua solicitação de reembolso do " ++ f.product ++ " foi registrada " ++
      "e será processada pela Hotmart. O valor volta pelo mesmo meio de pagamento; " ++
      "no cartão, costuma aparecer na fatura seguinte.\n\n" ++
      "Se quiser, responda em uma linha o que faltou no material. A informação é " ++
      "usada para melhorar as próximas versões e não muda em nada o seu reembolso.")),
    (.affiliate, fun f => f.letter (
      "Que bom o interesse em divulgar o " ++ f.product ++ ". O programa de afiliados é " ++
      "gerenciado pela Hotmart: basta buscar o produto no Mercado de Afiliados e " ++
      "solicitar afiliação — a aprovação sai em até 48h úteis e o material de " ++
      "divulgação é liberado junto com o link.")),
    (.complaint, fun f => f.letter (
      "Sinto muito pela experiência. Assumo o caso pessoalmente e ele já está " ++
      "como prioridade máxima aqui.\n\n" ++
      "Para resolver hoje: se o pedido for reembolso, ele será processado " ++
      "imediatamente, sem burocracia. Se for acesso, libero manualmente agora.\n\n" ++
      "Responda confirmando qual das duas opções resolve para você."))]

def otherTemplate (f : Filled) : String :=
  f.letter ("Recebemos a sua mensagem sobre o " ++ f.product ++ " e ela já está com a nossa " ++
    "equipe. Respondemos em até 1 dia útil.")

def subjectPrefix : EmailCategory → String
  | .access => "Seu acesso ao"
  | .payment => "Sobre o seu pagamento —"
  | .refund => "Sua solicitação de reembolso —"
  | .content => "Sobre sua dúvida —"
  | .invoice => "Nota fiscal —"
  | .technical => "Suporte técnico —"
  | .affiliate => "Programa de afiliados —"
  | .complaint => "Vamos resolver —"
  | .other | .partnership | .spam => "Sobre sua mensagem —"

def greeting (u : Unicode) (mail : InboundEmail) : String :=
  let localPart := mail.sender.toList.takeWhile (· ≠ '@')
  let name := localPart.takeWhile (fun c => c ∉ ['.', '_', '-', '+'])
  if u.isAlpha name = true ∧ 2 < name.length then u.capitalize name else "Olá"

def renderReply (u : Unicode) (mail : InboundEmail) (triage : MailTriage F)
    (settings : SupportSettings F) : String :=
  (Dict.lookup triage.category templates).getD otherTemplate
    { name := greeting u mail
      product := settings.product.name
      clubUrl := if settings.salesPageUrl = "" then "https://hotmart.com/pt-br/club"
        else settings.salesPageUrl
      signature := settings.supportSignature }

def reply (u : Unicode) (settings : SupportSettings F) (mail : InboundEmail)
    (triage : MailTriage F) : EmailReply F where
  emailId := mail.id
  recipient := mail.sender
  subject := subjectPrefix triage.category ++ " " ++ settings.product.name
  body := renderReply u mail triage settings
  triage := triage.toTriage
  autoSendable := (decideAutoSend triage settings).1
  reason := (decideAutoSend triage settings).2

end Replies

section Inbox

variable {F : Type} [Amounts F]

def spike (settings : SupportSettings F) (access total : Int) : Finding F × SupportEvidence :=
  ({ code := "SUPPORT_ACCESS_SPIKE"
     domain := .support
     severity := .warning
     title := toString access ++ " de " ++ toString total ++ " e-mails são sobre acesso"
     detail := "Volume alto de problema de entrega indica que o e-mail de liberação está caindo " ++
       "em spam ou que a instrução pós-compra não está clara."
     evidence := []
     recommendation := "Adicionar as instruções de acesso na página de obrigado e configurar " ++
       "SPF/DKIM no domínio do remetente."
     impact := Amounts.round (Amounts.count access * settings.product.contributionMargin * 4.0) 2
     effort := 1.0
     confidence := 0.8
     suggestedActions := [] }, .share access total)

def escalated (settings : SupportSettings F) (escalations : List (EmailReply F)) :
    Finding F × SupportEvidence :=
  ({ code := "SUPPORT_ESCALATION"
     domain := .support
     severity := .critical
     title := toString escalations.length ++ " e-mail(s) com risco jurídico ou de reputação"
     detail := "Mensagens com menção a Procon, advogado, Reclame Aqui ou chargeback. Resposta " ++
       "humana em até 4h reduz materialmente a chance de contestação."
     evidence := []
     recommendation := "Responder pessoalmente e resolver na primeira interação."
     impact := Amounts.round
       (Amounts.count escalations.length * settings.product.contributionMargin * 3.0) 2
     effort := 0.5
     confidence := 0.8
     suggestedActions := ["responder_manualmente"] },
    .escalations (escalations.map EmailReply.emailId)
      ((escalations.flatMap (fun r => r.triage.flags)).dedup.mergeSort (fun a b => a ≤ b)))

def refundPressure (settings : SupportSettings F) (refunds total : Int) :
    Finding F × SupportEvidence :=
  ({ code := "SUPPORT_REFUND_PRESSURE"
     domain := .support
     severity := .warning
     title := toString refunds ++ " pedidos de reembolso na caixa de entrada"
     detail := "Pedidos por e-mail antecipam o número que vai aparecer no painel da Hotmart nos " ++
       "próximos dias."
     evidence := []
     recommendation := "Processar rápido (evita chargeback) e investigar a causa comum nas " ++
       "mensagens."
     impact := Amounts.round (Amounts.count refunds * settings.product.contributionMargin * 4.0) 2
     effort := 1.0
     confidence := 0.8
     suggestedActions := [] }, .share refunds total)

def contentGap (settings : SupportSettings F) (content : Int) : Finding F × SupportEvidence :=
  ({ code := "SUPPORT_CONTENT_GAP"
     domain := .product
     severity := .opportunity
     title := toString content ++ " dúvidas recorrentes sobre o conteúdo"
     detail := "Perguntas repetidas apontam um trecho pouco claro ou material complementar " ++
       "difícil de achar."
     evidence := []
     recommendation := "Criar um FAQ na área de membros e um e-mail automático no D+2 cobrindo " ++
       "as dúvidas mais frequentes."
     impact := Amounts.round (Amounts.count content * settings.product.contributionMargin * 2.0) 2
     effort := 1.0
     confidence := 0.8
     suggestedActions := [] }, .content content)

def inboxFindings (replies : List (EmailReply F)) (counts : EmailCategory → Int)
    (settings : SupportSettings F) : List (Finding F × SupportEvidence) :=
  let total : Int := max 1 replies.length
  let escalations := replies.filter (fun r => r.triage.flags ≠ [])
  (if Floats.le 0.25 (Amounts.count (counts .access) / Amounts.count total : F) = true ∧
      2 ≤ counts .access then [spike settings (counts .access) total] else []) ++
  (if escalations ≠ [] then [escalated settings escalations] else []) ++
  (if Floats.le 0.2 (Amounts.count (counts .refund) / Amounts.count total : F) = true ∧
      2 ≤ counts .refund then [refundPressure settings (counts .refund) total] else []) ++
  if 2 ≤ counts .content then [contentGap settings (counts .content)] else []

variable (u : Unicode) (completeJson : CompleteJson F) (settings : SupportSettings F)

def triageInbox (emails : List InboundEmail) :
    Except CompareError (List (EmailReply F) × List (Finding F × SupportEvidence)) := do
  let triaged ← emails.mapM (fun mail => return (mail, ← classifyEmail u completeJson settings mail))
  let replies := triaged.map (fun t => reply u settings t.1 t.2)
  let counts := fun category : EmailCategory =>
    ((triaged.filter (fun t => t.2.category = category)).length : Int)
  return (replies, inboxFindings replies counts settings)

end Inbox

end Support

end Hotmart

end LangGraph
