import GherkinTree.Dialect

/-!
The keyword tables of the languages that the library knows. A step keyword listed with a space
behind it needs a blank after it; one listed without is glued to the text of the step. The dialects
with these tables are found by their codes, which are compared exactly.
-/

namespace GherkinTree

/-- The keywords of a language, role by role, as they are listed. -/
structure Vocabulary where
  code : String
  name : String
  native : String
  feature : List String
  background : List String
  rule : List String
  scenario : List String
  scenarioOutline : List String
  examples : List String
  givenStep : List String
  whenStep : List String
  thenStep : List String
  andStep : List String
  butStep : List String

namespace Vocabulary

/-- The listed spellings in the order in which they are registered. -/
def listed (v : Vocabulary) : List (Role × List String) :=
  [(.feature, v.feature), (.background, v.background), (.rule, v.rule),
    (.scenario, v.scenario), (.scenarioOutline, v.scenarioOutline), (.examples, v.examples),
    (.givenStep, v.givenStep), (.whenStep, v.whenStep), (.thenStep, v.thenStep),
    (.andStep, v.andStep), (.butStep, v.butStep)]

/-- The dialect with all the listed spellings. -/
def dialect (v : Vocabulary) : Dialect :=
  v.listed.foldl (fun d p => d.withSpellings p.1 (p.2.map String.toList))
    (Dialect.new v.code v.name v.native)

def afrikaans : Vocabulary where
  code := "af"
  name := "Afrikaans"
  native := "Afrikaans"
  feature := ["Funksie", "Besigheid Behoefte", "Vermoë"]
  background := ["Agtergrond"]
  rule := ["Regel"]
  scenario := ["Voorbeeld", "Situasie"]
  scenarioOutline := ["Situasie Uiteensetting"]
  examples := ["Voorbeelde"]
  givenStep := ["* ", "Gegewe "]
  whenStep := ["* ", "Wanneer "]
  thenStep := ["* ", "Dan "]
  andStep := ["* ", "En "]
  butStep := ["* ", "Maar "]

def armenian : Vocabulary where
  code := "am"
  name := "Armenian"
  native := "հայերեն"
  feature := ["Ֆունկցիոնալություն", "Հատկություն"]
  background := ["Կոնտեքստ"]
  rule := ["Rule"]
  scenario := ["Օրինակ", "Սցենար"]
  scenarioOutline := ["Սցենարի կառուցվացքը"]
  examples := ["Օրինակներ"]
  givenStep := ["* ", "Դիցուք "]
  whenStep := ["* ", "Եթե ", "Երբ "]
  thenStep := ["* ", "Ապա "]
  andStep := ["* ", "Եվ "]
  butStep := ["* ", "Բայց "]

def aragonese : Vocabulary where
  code := "an"
  name := "Aragonese"
  native := "Aragonés"
  feature := ["Caracteristica"]
  background := ["Antecedents"]
  rule := ["Rule"]
  scenario := ["Eixemplo", "Caso"]
  scenarioOutline := ["Esquema del caso"]
  examples := ["Eixemplos"]
  givenStep := ["* ", "Dau ", "Dada ", "Daus ", "Dadas "]
  whenStep := ["* ", "Cuan "]
  thenStep := ["* ", "Alavez ", "Allora ", "Antonces "]
  andStep := ["* ", "Y ", "E "]
  butStep := ["* ", "Pero "]

def arabic : Vocabulary where
  code := "ar"
  name := "Arabic"
  native := "العربية"
  feature := ["خاصية"]
  background := ["الخلفية"]
  rule := ["Rule"]
  scenario := ["مثال", "سيناريو"]
  scenarioOutline := ["سيناريو مخطط"]
  examples := ["امثلة"]
  givenStep := ["* ", "بفرض "]
  whenStep := ["* ", "متى ", "عندما "]
  thenStep := ["* ", "اذاً ", "ثم "]
  andStep := ["* ", "و "]
  butStep := ["* ", "لكن "]

def asturian : Vocabulary where
  code := "ast"
  name := "Asturian"
  native := "asturianu"
  feature := ["Carauterística"]
  background := ["Antecedentes"]
  rule := ["Rule"]
  scenario := ["Exemplo", "Casu"]
  scenarioOutline := ["Esbozu del casu"]
  examples := ["Exemplos"]
  givenStep := ["* ", "Dáu ", "Dada ", "Daos ", "Daes "]
  whenStep := ["* ", "Cuando "]
  thenStep := ["* ", "Entós "]
  andStep := ["* ", "Y ", "Ya "]
  butStep := ["* ", "Peru "]

def azerbaijani : Vocabulary where
  code := "az"
  name := "Azerbaijani"
  native := "Azərbaycanca"
  feature := ["Özəllik"]
  background := ["Keçmiş", "Kontekst"]
  rule := ["Rule"]
  scenario := ["Nümunə", "Ssenari"]
  scenarioOutline := ["Ssenarinin strukturu"]
  examples := ["Nümunələr"]
  givenStep := ["* ", "Tutaq ki ", "Verilir "]
  whenStep := ["* ", "Əgər ", "Nə vaxt ki "]
  thenStep := ["* ", "O halda "]
  andStep := ["* ", "Və ", "Həm "]
  butStep := ["* ", "Amma ", "Ancaq "]

def belarusian : Vocabulary where
  code := "be"
  name := "Belarusian"
  native := "Беларуская"
  feature := ["Функцыянальнасць", "Фіча"]
  background := ["Кантэкст"]
  rule := ["Правілы"]
  scenario := ["Сцэнарый", "Cцэнар"]
  scenarioOutline := ["Шаблон сцэнарыя", "Узор сцэнара"]
  examples := ["Прыклады"]
  givenStep := ["* ", "Няхай ", "Дадзена "]
  whenStep := ["* ", "Калі "]
  thenStep := ["* ", "Тады "]
  andStep := ["* ", "I ", "Ды ", "Таксама "]
  butStep := ["* ", "Але ", "Інакш "]

def bulgarian : Vocabulary where
  code := "bg"
  name := "Bulgarian"
  native := "български"
  feature := ["Функционалност"]
  background := ["Предистория"]
  rule := ["Правило"]
  scenario := ["Пример", "Сценарий"]
  scenarioOutline := ["Рамка на сценарий"]
  examples := ["Примери"]
  givenStep := ["* ", "Дадено "]
  whenStep := ["* ", "Когато "]
  thenStep := ["* ", "То "]
  andStep := ["* ", "И "]
  butStep := ["* ", "Но "]

def malay : Vocabulary where
  code := "bm"
  name := "Malay"
  native := "Bahasa Melayu"
  feature := ["Fungsi"]
  background := ["Latar Belakang"]
  rule := ["Rule"]
  scenario := ["Senario", "Situasi", "Keadaan"]
  scenarioOutline :=
    ["Kerangka Senario", "Kerangka Situasi", "Kerangka Keadaan", "Garis Panduan Senario"]
  examples := ["Contoh"]
  givenStep := ["* ", "Diberi ", "Bagi "]
  whenStep := ["* ", "Apabila "]
  thenStep := ["* ", "Maka ", "Kemudian "]
  andStep := ["* ", "Dan "]
  butStep := ["* ", "Tetapi ", "Tapi "]

def bosnian : Vocabulary where
  code := "bs"
  name := "Bosnian"
  native := "Bosanski"
  feature := ["Karakteristika"]
  background := ["Pozadina"]
  rule := ["Rule"]
  scenario := ["Primjer", "Scenariju", "Scenario"]
  scenarioOutline := ["Scenariju-obris", "Scenario-outline"]
  examples := ["Primjeri"]
  givenStep := ["* ", "Dato "]
  whenStep := ["* ", "Kada "]
  thenStep := ["* ", "Zatim "]
  andStep := ["* ", "I ", "A "]
  butStep := ["* ", "Ali "]

def catalan : Vocabulary where
  code := "ca"
  name := "Catalan"
  native := "català"
  feature := ["Característica", "Funcionalitat"]
  background := ["Rerefons", "Antecedents"]
  rule := ["Rule"]
  scenario := ["Exemple", "Escenari"]
  scenarioOutline := ["Esquema de l'escenari"]
  examples := ["Exemples"]
  givenStep := ["* ", "Donat ", "Donada ", "Atès ", "Atesa "]
  whenStep := ["* ", "Quan "]
  thenStep := ["* ", "Aleshores ", "Cal "]
  andStep := ["* ", "I "]
  butStep := ["* ", "Però "]

def czech : Vocabulary where
  code := "cs"
  name := "Czech"
  native := "Česky"
  feature := ["Požadavek"]
  background := ["Pozadí", "Kontext"]
  rule := ["Pravidlo"]
  scenario := ["Příklad", "Scénář"]
  scenarioOutline := ["Náčrt Scénáře", "Osnova scénáře"]
  examples := ["Příklady"]
  givenStep := ["* ", "Pokud ", "Za předpokladu "]
  whenStep := ["* ", "Když "]
  thenStep := ["* ", "Pak "]
  andStep := ["* ", "A také ", "A "]
  butStep := ["* ", "Ale "]

def welsh : Vocabulary where
  code := "cy-GB"
  name := "Welsh"
  native := "Cymraeg"
  feature := ["Arwedd"]
  background := ["Cefndir"]
  rule := ["Rule"]
  scenario := ["Enghraifft", "Scenario"]
  scenarioOutline := ["Scenario Amlinellol"]
  examples := ["Enghreifftiau"]
  givenStep := ["* ", "Anrhegedig a "]
  whenStep := ["* ", "Pryd "]
  thenStep := ["* ", "Yna "]
  andStep := ["* ", "A "]
  butStep := ["* ", "Ond "]

def danish : Vocabulary where
  code := "da"
  name := "Danish"
  native := "dansk"
  feature := ["Egenskab"]
  background := ["Baggrund"]
  rule := ["Regel"]
  scenario := ["Eksempel", "Scenarie"]
  scenarioOutline := ["Abstrakt Scenario"]
  examples := ["Eksempler"]
  givenStep := ["* ", "Givet "]
  whenStep := ["* ", "Når "]
  thenStep := ["* ", "Så "]
  andStep := ["* ", "Og "]
  butStep := ["* ", "Men "]

def german : Vocabulary where
  code := "de"
  name := "German"
  native := "Deutsch"
  feature := ["Funktionalität", "Funktion"]
  background := ["Grundlage", "Hintergrund", "Voraussetzungen", "Vorbedingungen"]
  rule := ["Rule", "Regel"]
  scenario := ["Beispiel", "Szenario"]
  scenarioOutline := ["Szenariogrundriss", "Szenarien"]
  examples := ["Beispiele"]
  givenStep := ["* ", "Angenommen ", "Gegeben sei ", "Gegeben seien "]
  whenStep := ["* ", "Wenn "]
  thenStep := ["* ", "Dann "]
  andStep := ["* ", "Und "]
  butStep := ["* ", "Aber "]

def greek : Vocabulary where
  code := "el"
  name := "Greek"
  native := "Ελληνικά"
  feature := ["Δυνατότητα", "Λειτουργία"]
  background := ["Υπόβαθρο"]
  rule := ["Rule"]
  scenario := ["Παράδειγμα", "Σενάριο"]
  scenarioOutline := ["Περιγραφή Σεναρίου", "Περίγραμμα Σεναρίου"]
  examples := ["Παραδείγματα", "Σενάρια"]
  givenStep := ["* ", "Δεδομένου "]
  whenStep := ["* ", "Όταν "]
  thenStep := ["* ", "Τότε "]
  andStep := ["* ", "Και "]
  butStep := ["* ", "Αλλά "]

def emoji : Vocabulary where
  code := "em"
  name := "Emoji"
  native := "😀"
  feature := ["📚"]
  background := ["💤"]
  rule := ["Rule"]
  scenario := ["🥒", "📕"]
  scenarioOutline := ["📖"]
  examples := ["📓"]
  givenStep := ["* ", "😐"]
  whenStep := ["* ", "🎬"]
  thenStep := ["* ", "🙏"]
  andStep := ["* ", "😂"]
  butStep := ["* ", "😔"]

def english : Vocabulary where
  code := "en"
  name := "English"
  native := "English"
  feature := ["Feature", "Business Need", "Ability"]
  background := ["Background"]
  rule := ["Rule"]
  scenario := ["Example", "Scenario"]
  scenarioOutline := ["Scenario Outline", "Scenario Template"]
  examples := ["Examples", "Scenarios"]
  givenStep := ["* ", "Given "]
  whenStep := ["* ", "When "]
  thenStep := ["* ", "Then "]
  andStep := ["* ", "And "]
  butStep := ["* ", "But "]

def scouse : Vocabulary where
  code := "en-Scouse"
  name := "Scouse"
  native := "Scouse"
  feature := ["Feature"]
  background := ["Dis is what went down"]
  rule := ["Rule"]
  scenario := ["The thing of it is"]
  scenarioOutline := ["Wharrimean is"]
  examples := ["Wiv dead mates"]
  givenStep := ["* ", "Givun ", "Youse know when youse got "]
  whenStep := ["* ", "Wun ", "Youse know like when "]
  thenStep := ["* ", "Dun ", "Den youse gotta "]
  andStep := ["* ", "An "]
  butStep := ["* ", "Buh "]

def australian : Vocabulary where
  code := "en-au"
  name := "Australian"
  native := "Australian"
  feature := ["Pretty much"]
  background := ["First off"]
  rule := ["Rule"]
  scenario := ["Awww, look mate"]
  scenarioOutline := ["Reckon it's like"]
  examples := ["You'll wanna"]
  givenStep := ["* ", "Y'know "]
  whenStep := ["* ", "It's just unbelievable "]
  thenStep := ["* ", "But at the end of the day I reckon "]
  andStep := ["* ", "Too right "]
  butStep := ["* ", "Yeah nah "]

def lolcat : Vocabulary where
  code := "en-lol"
  name := "LOLCAT"
  native := "LOLCAT"
  feature := ["OH HAI"]
  background := ["B4"]
  rule := ["Rule"]
  scenario := ["MISHUN"]
  scenarioOutline := ["MISHUN SRSLY"]
  examples := ["EXAMPLZ"]
  givenStep := ["* ", "I CAN HAZ "]
  whenStep := ["* ", "WEN "]
  thenStep := ["* ", "DEN "]
  andStep := ["* ", "AN "]
  butStep := ["* ", "BUT "]

def oldEnglish : Vocabulary where
  code := "en-old"
  name := "Old English"
  native := "Englisc"
  feature := ["Hwaet", "Hwæt"]
  background := ["Aer", "Ær"]
  rule := ["Rule"]
  scenario := ["Swa"]
  scenarioOutline := ["Swa hwaer swa", "Swa hwær swa"]
  examples := ["Se the", "Se þe", "Se ðe"]
  givenStep := ["* ", "Thurh ", "Þurh ", "Ðurh "]
  whenStep :=
    ["* ", "Bæþsealf ", "Bæþsealfa ", "Bæþsealfe ", "Ciricæw ", "Ciricæwe ", "Ciricæwa "]
  thenStep := ["* ", "Tha ", "Þa ", "Ða ", "Tha the ", "Þa þe ", "Ða ðe "]
  andStep := ["* ", "Ond ", "7 "]
  butStep := ["* ", "Ac "]

def pirate : Vocabulary where
  code := "en-pirate"
  name := "Pirate"
  native := "Pirate"
  feature := ["Ahoy matey!"]
  background := ["Yo-ho-ho"]
  rule := ["Rule"]
  scenario := ["Heave to"]
  scenarioOutline := ["Shiver me timbers"]
  examples := ["Dead men tell no tales"]
  givenStep := ["* ", "Gangway! "]
  whenStep := ["* ", "Blimey! "]
  thenStep := ["* ", "Let go and haul "]
  andStep := ["* ", "Aye "]
  butStep := ["* ", "Avast! "]

def texas : Vocabulary where
  code := "en-tx"
  name := "Texas"
  native := "Texas"
  feature := ["This ain’t my first rodeo", "All gussied up"]
  background := ["Lemme tell y'all a story"]
  rule := ["Rule"]
  scenario := ["All hat and no cattle"]
  scenarioOutline := ["Serious as a snake bite", "Busy as a hound in flea season"]
  examples := ["Now that's a story longer than a cattle drive in July"]
  givenStep := ["Fixin' to ", "All git out "]
  whenStep := ["Quick out of the chute "]
  thenStep := ["There’s no tree but bears some fruit "]
  andStep := ["Come hell or high water "]
  butStep := ["Well now hold on, I'll you what "]

def esperanto : Vocabulary where
  code := "eo"
  name := "Esperanto"
  native := "Esperanto"
  feature := ["Trajto"]
  background := ["Fono"]
  rule := ["Regulo"]
  scenario := ["Ekzemplo", "Scenaro", "Kazo"]
  scenarioOutline := ["Konturo de la scenaro", "Skizo", "Kazo-skizo"]
  examples := ["Ekzemploj"]
  givenStep := ["* ", "Donitaĵo ", "Komence "]
  whenStep := ["* ", "Se "]
  thenStep := ["* ", "Do "]
  andStep := ["* ", "Kaj "]
  butStep := ["* ", "Sed "]

def spanish : Vocabulary where
  code := "es"
  name := "Spanish"
  native := "español"
  feature := ["Característica", "Necesidad del negocio", "Requisito"]
  background := ["Antecedentes"]
  rule := ["Regla", "Regla de negocio"]
  scenario := ["Ejemplo", "Escenario"]
  scenarioOutline := ["Esquema del escenario"]
  examples := ["Ejemplos"]
  givenStep := ["* ", "Dado ", "Dada ", "Dados ", "Dadas "]
  whenStep := ["* ", "Cuando "]
  thenStep := ["* ", "Entonces "]
  andStep := ["* ", "Y ", "E "]
  butStep := ["* ", "Pero "]

def estonian : Vocabulary where
  code := "et"
  name := "Estonian"
  native := "eesti keel"
  feature := ["Omadus"]
  background := ["Taust"]
  rule := ["Reegel"]
  scenario := ["Juhtum", "Stsenaarium"]
  scenarioOutline := ["Raamjuhtum", "Raamstsenaarium"]
  examples := ["Juhtumid"]
  givenStep := ["* ", "Eeldades "]
  whenStep := ["* ", "Kui "]
  thenStep := ["* ", "Siis "]
  andStep := ["* ", "Ja "]
  butStep := ["* ", "Kuid "]

def persian : Vocabulary where
  code := "fa"
  name := "Persian"
  native := "فارسی"
  feature := ["وِیژگی"]
  background := ["زمینه"]
  rule := ["Rule"]
  scenario := ["مثال", "سناریو"]
  scenarioOutline := ["الگوی سناریو"]
  examples := ["نمونه ها"]
  givenStep := ["* ", "با فرض "]
  whenStep := ["* ", "هنگامی "]
  thenStep := ["* ", "آنگاه "]
  andStep := ["* ", "و "]
  butStep := ["* ", "اما "]

def finnish : Vocabulary where
  code := "fi"
  name := "Finnish"
  native := "suomi"
  feature := ["Ominaisuus"]
  background := ["Tausta"]
  rule := ["Rule"]
  scenario := ["Tapaus"]
  scenarioOutline := ["Tapausaihio"]
  examples := ["Tapaukset"]
  givenStep := ["* ", "Oletetaan "]
  whenStep := ["* ", "Kun "]
  thenStep := ["* ", "Niin "]
  andStep := ["* ", "Ja "]
  butStep := ["* ", "Mutta "]

def french : Vocabulary where
  code := "fr"
  name := "French"
  native := "français"
  feature := ["Fonctionnalité"]
  background := ["Contexte"]
  rule := ["Règle"]
  scenario := ["Exemple", "Scénario"]
  scenarioOutline := ["Plan du scénario", "Plan du Scénario"]
  examples := ["Exemples"]
  givenStep :=
    ["* ", "Soit ", "Sachant que ", "Sachant qu'", "Sachant ", "Etant donné que ",
      "Etant donné qu'", "Etant donné ", "Etant donnée ", "Etant donnés ", "Etant données ",
      "Étant donné que ", "Étant donné qu'", "Étant donné ", "Étant donnée ", "Étant donnés ",
      "Étant données "]
  whenStep := ["* ", "Quand ", "Lorsque ", "Lorsqu'"]
  thenStep := ["* ", "Alors ", "Donc "]
  andStep := ["* ", "Et que ", "Et qu'", "Et "]
  butStep := ["* ", "Mais que ", "Mais qu'", "Mais "]

def irish : Vocabulary where
  code := "ga"
  name := "Irish"
  native := "Gaeilge"
  feature := ["Gné"]
  background := ["Cúlra"]
  rule := ["Rule"]
  scenario := ["Sampla", "Cás"]
  scenarioOutline := ["Cás Achomair"]
  examples := ["Samplaí"]
  givenStep := ["* ", "Cuir i gcás go", "Cuir i gcás nach", "Cuir i gcás gur", "Cuir i gcás nár"]
  whenStep := ["* ", "Nuair a", "Nuair nach", "Nuair ba", "Nuair nár"]
  thenStep := ["* ", "Ansin"]
  andStep := ["* ", "Agus"]
  butStep := ["* ", "Ach"]

def gujarati : Vocabulary where
  code := "gj"
  name := "Gujarati"
  native := "ગુજરાતી"
  feature := ["લક્ષણ", "વ્યાપાર જરૂર", "ક્ષમતા"]
  background := ["બેકગ્રાઉન્ડ"]
  rule := ["Rule"]
  scenario := ["ઉદાહરણ", "સ્થિતિ"]
  scenarioOutline := ["પરિદ્દશ્ય રૂપરેખા", "પરિદ્દશ્ય ઢાંચો"]
  examples := ["ઉદાહરણો"]
  givenStep := ["* ", "આપેલ છે "]
  whenStep := ["* ", "ક્યારે "]
  thenStep := ["* ", "પછી "]
  andStep := ["* ", "અને "]
  butStep := ["* ", "પણ "]

def galician : Vocabulary where
  code := "gl"
  name := "Galician"
  native := "galego"
  feature := ["Característica"]
  background := ["Contexto"]
  rule := ["Rule"]
  scenario := ["Exemplo", "Escenario"]
  scenarioOutline := ["Esbozo do escenario"]
  examples := ["Exemplos"]
  givenStep := ["* ", "Dado ", "Dada ", "Dados ", "Dadas "]
  whenStep := ["* ", "Cando "]
  thenStep := ["* ", "Entón ", "Logo "]
  andStep := ["* ", "E "]
  butStep := ["* ", "Mais ", "Pero "]

def hebrew : Vocabulary where
  code := "he"
  name := "Hebrew"
  native := "עברית"
  feature := ["תכונה"]
  background := ["רקע"]
  rule := ["כלל"]
  scenario := ["דוגמא", "תרחיש"]
  scenarioOutline := ["תבנית תרחיש"]
  examples := ["דוגמאות"]
  givenStep := ["* ", "בהינתן "]
  whenStep := ["* ", "כאשר "]
  thenStep := ["* ", "אז ", "אזי "]
  andStep := ["* ", "וגם "]
  butStep := ["* ", "אבל "]

def hindi : Vocabulary where
  code := "hi"
  name := "Hindi"
  native := "हिंदी"
  feature := ["रूप लेख"]
  background := ["पृष्ठभूमि"]
  rule := ["नियम"]
  scenario := ["परिदृश्य"]
  scenarioOutline := ["परिदृश्य रूपरेखा"]
  examples := ["उदाहरण"]
  givenStep := ["* ", "अगर ", "यदि ", "चूंकि "]
  whenStep := ["* ", "जब ", "कदा "]
  thenStep := ["* ", "तब ", "तदा "]
  andStep := ["* ", "और ", "तथा "]
  butStep := ["* ", "पर ", "परन्तु ", "किन्तु "]

def croatian : Vocabulary where
  code := "hr"
  name := "Croatian"
  native := "hrvatski"
  feature := ["Osobina", "Mogućnost", "Mogucnost"]
  background := ["Pozadina"]
  rule := ["Rule"]
  scenario := ["Primjer", "Scenarij"]
  scenarioOutline := ["Skica", "Koncept"]
  examples := ["Primjeri", "Scenariji"]
  givenStep := ["* ", "Zadan ", "Zadani ", "Zadano ", "Ukoliko "]
  whenStep := ["* ", "Kada ", "Kad "]
  thenStep := ["* ", "Onda "]
  andStep := ["* ", "I "]
  butStep := ["* ", "Ali "]

def creole : Vocabulary where
  code := "ht"
  name := "Creole"
  native := "kreyòl"
  feature := ["Karakteristik", "Mak", "Fonksyonalite"]
  background := ["Kontèks", "Istorik"]
  rule := ["Rule"]
  scenario := ["Senaryo"]
  scenarioOutline :=
    ["Plan senaryo", "Plan Senaryo", "Senaryo deskripsyon", "Senaryo Deskripsyon",
      "Dyagram senaryo", "Dyagram Senaryo"]
  examples := ["Egzanp"]
  givenStep := ["* ", "Sipoze ", "Sipoze ke ", "Sipoze Ke "]
  whenStep := ["* ", "Lè ", "Le "]
  thenStep := ["* ", "Lè sa a ", "Le sa a "]
  andStep := ["* ", "Avèk ", "Epitou ", "Ak "]
  butStep := ["* ", "Men "]

def hungarian : Vocabulary where
  code := "hu"
  name := "Hungarian"
  native := "magyar"
  feature := ["Jellemző"]
  background := ["Háttér"]
  rule := ["Szabály"]
  scenario := ["Példa", "Forgatókönyv"]
  scenarioOutline := ["Forgatókönyv vázlat"]
  examples := ["Példák"]
  givenStep := ["* ", "Amennyiben ", "Adott "]
  whenStep := ["* ", "Majd ", "Ha ", "Amikor "]
  thenStep := ["* ", "Akkor "]
  andStep := ["* ", "És "]
  butStep := ["* ", "De "]

def indonesian : Vocabulary where
  code := "id"
  name := "Indonesian"
  native := "Bahasa Indonesia"
  feature := ["Fitur"]
  background := ["Dasar", "Latar Belakang"]
  rule := ["Rule", "Aturan"]
  scenario := ["Skenario"]
  scenarioOutline := ["Skenario konsep", "Garis-Besar Skenario"]
  examples := ["Contoh", "Misal"]
  givenStep := ["* ", "Dengan ", "Diketahui ", "Diasumsikan ", "Bila ", "Jika "]
  whenStep := ["* ", "Ketika "]
  thenStep := ["* ", "Maka ", "Kemudian "]
  andStep := ["* ", "Dan "]
  butStep := ["* ", "Tapi ", "Tetapi "]

def icelandic : Vocabulary where
  code := "is"
  name := "Icelandic"
  native := "Íslenska"
  feature := ["Eiginleiki"]
  background := ["Bakgrunnur"]
  rule := ["Rule"]
  scenario := ["Atburðarás"]
  scenarioOutline := ["Lýsing Atburðarásar", "Lýsing Dæma"]
  examples := ["Dæmi", "Atburðarásir"]
  givenStep := ["* ", "Ef "]
  whenStep := ["* ", "Þegar "]
  thenStep := ["* ", "Þá "]
  andStep := ["* ", "Og "]
  butStep := ["* ", "En "]

def italian : Vocabulary where
  code := "it"
  name := "Italian"
  native := "italiano"
  feature := ["Funzionalità", "Esigenza di Business", "Abilità"]
  background := ["Contesto"]
  rule := ["Regola"]
  scenario := ["Esempio", "Scenario"]
  scenarioOutline := ["Schema dello scenario"]
  examples := ["Esempi"]
  givenStep := ["* ", "Dato ", "Data ", "Dati ", "Date "]
  whenStep := ["* ", "Quando "]
  thenStep := ["* ", "Allora "]
  andStep := ["* ", "E "]
  butStep := ["* ", "Ma "]

def japanese : Vocabulary where
  code := "ja"
  name := "Japanese"
  native := "日本語"
  feature := ["フィーチャ", "機能"]
  background := ["背景"]
  rule := ["ルール"]
  scenario := ["シナリオ"]
  scenarioOutline := ["シナリオアウトライン", "シナリオテンプレート", "テンプレ", "シナリオテンプレ"]
  examples := ["例", "サンプル"]
  givenStep := ["* ", "前提"]
  whenStep := ["* ", "もし"]
  thenStep := ["* ", "ならば"]
  andStep := ["* ", "且つ", "かつ"]
  butStep := ["* ", "然し", "しかし", "但し", "ただし"]

def javanese : Vocabulary where
  code := "jv"
  name := "Javanese"
  native := "Basa Jawa"
  feature := ["Fitur"]
  background := ["Dasar"]
  rule := ["Rule"]
  scenario := ["Skenario"]
  scenarioOutline := ["Konsep skenario"]
  examples := ["Conto", "Contone"]
  givenStep := ["* ", "Nalika ", "Nalikaning "]
  whenStep := ["* ", "Manawa ", "Menawa "]
  thenStep := ["* ", "Njuk ", "Banjur "]
  andStep := ["* ", "Lan "]
  butStep := ["* ", "Tapi ", "Nanging ", "Ananging "]

def georgian : Vocabulary where
  code := "ka"
  name := "Georgian"
  native := "ქართული"
  feature := ["თვისება", "მოთხოვნა"]
  background := ["კონტექსტი"]
  rule := ["წესი"]
  scenario := ["მაგალითად", "მაგალითი", "მაგ", "სცენარი"]
  scenarioOutline := ["სცენარის ნიმუში", "სცენარის შაბლონი", "ნიმუში", "შაბლონი"]
  examples := ["მაგალითები"]
  givenStep := ["* ", "მოცემული ", "მოცემულია ", "ვთქვათ "]
  whenStep := ["* ", "როდესაც ", "როცა ", "როგორც კი ", "თუ "]
  thenStep := ["* ", "მაშინ "]
  andStep := ["* ", "და ", "ასევე "]
  butStep := ["* ", "მაგრამ ", "თუმცა "]

def kannada : Vocabulary where
  code := "kn"
  name := "Kannada"
  native := "ಕನ್ನಡ"
  feature := ["ಹೆಚ್ಚಳ"]
  background := ["ಹಿನ್ನೆಲೆ"]
  rule := ["Rule"]
  scenario := ["ಉದಾಹರಣೆ", "ಕಥಾಸಾರಾಂಶ"]
  scenarioOutline := ["ವಿವರಣೆ"]
  examples := ["ಉದಾಹರಣೆಗಳು"]
  givenStep := ["* ", "ನೀಡಿದ "]
  whenStep := ["* ", "ಸ್ಥಿತಿಯನ್ನು "]
  thenStep := ["* ", "ನಂತರ "]
  andStep := ["* ", "ಮತ್ತು "]
  butStep := ["* ", "ಆದರೆ "]

def korean : Vocabulary where
  code := "ko"
  name := "Korean"
  native := "한국어"
  feature := ["기능"]
  background := ["배경"]
  rule := ["Rule"]
  scenario := ["시나리오"]
  scenarioOutline := ["시나리오 개요"]
  examples := ["예"]
  givenStep := ["* ", "조건", "먼저"]
  whenStep := ["* ", "만일", "만약"]
  thenStep := ["* ", "그러면"]
  andStep := ["* ", "그리고"]
  butStep := ["* ", "하지만", "단"]

def lithuanian : Vocabulary where
  code := "lt"
  name := "Lithuanian"
  native := "lietuvių kalba"
  feature := ["Savybė"]
  background := ["Kontekstas"]
  rule := ["Rule"]
  scenario := ["Pavyzdys", "Scenarijus"]
  scenarioOutline := ["Scenarijaus šablonas"]
  examples := ["Pavyzdžiai", "Scenarijai", "Variantai"]
  givenStep := ["* ", "Duota "]
  whenStep := ["* ", "Kai "]
  thenStep := ["* ", "Tada "]
  andStep := ["* ", "Ir "]
  butStep := ["* ", "Bet "]

def luxemburgish : Vocabulary where
  code := "lu"
  name := "Luxemburgish"
  native := "Lëtzebuergesch"
  feature := ["Funktionalitéit"]
  background := ["Hannergrond"]
  rule := ["Rule"]
  scenario := ["Beispill", "Szenario"]
  scenarioOutline := ["Plang vum Szenario"]
  examples := ["Beispiller"]
  givenStep := ["* ", "ugeholl "]
  whenStep := ["* ", "wann "]
  thenStep := ["* ", "dann "]
  andStep := ["* ", "an ", "a "]
  butStep := ["* ", "awer ", "mä "]

def latvian : Vocabulary where
  code := "lv"
  name := "Latvian"
  native := "latviešu"
  feature := ["Funkcionalitāte", "Fīča"]
  background := ["Konteksts", "Situācija"]
  rule := ["Rule"]
  scenario := ["Piemērs", "Scenārijs"]
  scenarioOutline := ["Scenārijs pēc parauga"]
  examples := ["Piemēri", "Paraugs"]
  givenStep := ["* ", "Kad "]
  whenStep := ["* ", "Ja "]
  thenStep := ["* ", "Tad "]
  andStep := ["* ", "Un "]
  butStep := ["* ", "Bet "]

def macedonian : Vocabulary where
  code := "mk-Cyrl"
  name := "Macedonian"
  native := "Македонски"
  feature := ["Функционалност", "Бизнис потреба", "Можност"]
  background := ["Контекст", "Содржина"]
  rule := ["Rule"]
  scenario := ["Пример", "Сценарио", "На пример"]
  scenarioOutline := ["Преглед на сценарија", "Скица", "Концепт"]
  examples := ["Примери", "Сценарија"]
  givenStep := ["* ", "Дадено ", "Дадена "]
  whenStep := ["* ", "Кога "]
  thenStep := ["* ", "Тогаш "]
  andStep := ["* ", "И "]
  butStep := ["* ", "Но "]

def macedonianLatin : Vocabulary where
  code := "mk-Latn"
  name := "Macedonian (Latin)"
  native := "Makedonski (Latinica)"
  feature := ["Funkcionalnost", "Biznis potreba", "Mozhnost"]
  background := ["Kontekst", "Sodrzhina"]
  rule := ["Rule"]
  scenario := ["Scenario", "Na primer"]
  scenarioOutline := ["Pregled na scenarija", "Skica", "Koncept"]
  examples := ["Primeri", "Scenaria"]
  givenStep := ["* ", "Dadeno ", "Dadena "]
  whenStep := ["* ", "Koga "]
  thenStep := ["* ", "Togash "]
  andStep := ["* ", "I "]
  butStep := ["* ", "No "]

def mongolian : Vocabulary where
  code := "mn"
  name := "Mongolian"
  native := "монгол"
  feature := ["Функц", "Функционал"]
  background := ["Агуулга"]
  rule := ["Rule"]
  scenario := ["Сценар"]
  scenarioOutline := ["Сценарын төлөвлөгөө"]
  examples := ["Тухайлбал"]
  givenStep := ["* ", "Өгөгдсөн нь ", "Анх "]
  whenStep := ["* ", "Хэрэв "]
  thenStep := ["* ", "Тэгэхэд ", "Үүний дараа "]
  andStep := ["* ", "Мөн ", "Тэгээд "]
  butStep := ["* ", "Гэхдээ ", "Харин "]

def marathi : Vocabulary where
  code := "mr"
  name := "Marathi"
  native := "मराठी"
  feature := ["वैशिष्ट्य", "सुविधा"]
  background := ["पार्श्वभूमी"]
  rule := ["नियम"]
  scenario := ["परिदृश्य"]
  scenarioOutline := ["परिदृश्य रूपरेखा"]
  examples := ["उदाहरण"]
  givenStep := ["* ", "जर", "दिलेल्या प्रमाणे "]
  whenStep := ["* ", "जेव्हा "]
  thenStep := ["* ", "मग ", "तेव्हा "]
  andStep := ["* ", "आणि ", "तसेच "]
  butStep := ["* ", "पण ", "परंतु "]

def nepali : Vocabulary where
  code := "ne"
  name := "Nepali"
  native := "नेपाली"
  feature := ["सुविधा", "विशेषता"]
  background := ["पृष्ठभूमी"]
  rule := ["नियम"]
  scenario := ["परिदृश्य"]
  scenarioOutline := ["परिदृश्य रूपरेखा"]
  examples := ["उदाहरण", "उदाहरणहरु"]
  givenStep := ["* ", "दिइएको ", "दिएको ", "यदि "]
  whenStep := ["* ", "जब "]
  thenStep := ["* ", "त्यसपछि ", "अनी "]
  andStep := ["* ", "र ", "अनी "]
  butStep := ["* ", "तर "]

def dutch : Vocabulary where
  code := "nl"
  name := "Dutch"
  native := "Nederlands"
  feature := ["Functionaliteit"]
  background := ["Achtergrond"]
  rule := ["Rule"]
  scenario := ["Voorbeeld", "Scenario"]
  scenarioOutline := ["Abstract Scenario"]
  examples := ["Voorbeelden"]
  givenStep := ["* ", "Gegeven ", "Stel "]
  whenStep := ["* ", "Als ", "Wanneer "]
  thenStep := ["* ", "Dan "]
  andStep := ["* ", "En "]
  butStep := ["* ", "Maar "]

def norwegian : Vocabulary where
  code := "no"
  name := "Norwegian"
  native := "norsk"
  feature := ["Egenskap"]
  background := ["Bakgrunn"]
  rule := ["Regel"]
  scenario := ["Eksempel", "Scenario"]
  scenarioOutline := ["Scenariomal", "Abstrakt Scenario"]
  examples := ["Eksempler"]
  givenStep := ["* ", "Gitt "]
  whenStep := ["* ", "Når "]
  thenStep := ["* ", "Så "]
  andStep := ["* ", "Og "]
  butStep := ["* ", "Men "]

def panjabi : Vocabulary where
  code := "pa"
  name := "Panjabi"
  native := "ਪੰਜਾਬੀ"
  feature := ["ਖਾਸੀਅਤ", "ਮੁਹਾਂਦਰਾ", "ਨਕਸ਼ ਨੁਹਾਰ"]
  background := ["ਪਿਛੋਕੜ"]
  rule := ["Rule"]
  scenario := ["ਉਦਾਹਰਨ", "ਪਟਕਥਾ"]
  scenarioOutline := ["ਪਟਕਥਾ ਢਾਂਚਾ", "ਪਟਕਥਾ ਰੂਪ ਰੇਖਾ"]
  examples := ["ਉਦਾਹਰਨਾਂ"]
  givenStep := ["* ", "ਜੇਕਰ ", "ਜਿਵੇਂ ਕਿ "]
  whenStep := ["* ", "ਜਦੋਂ "]
  thenStep := ["* ", "ਤਦ "]
  andStep := ["* ", "ਅਤੇ "]
  butStep := ["* ", "ਪਰ "]

def polish : Vocabulary where
  code := "pl"
  name := "Polish"
  native := "polski"
  feature := ["Właściwość", "Funkcja", "Aspekt", "Potrzeba biznesowa"]
  background := ["Założenia"]
  rule := ["Zasada", "Reguła"]
  scenario := ["Przykład", "Scenariusz"]
  scenarioOutline := ["Szablon scenariusza"]
  examples := ["Przykłady"]
  givenStep := ["* ", "Zakładając ", "Mając ", "Zakładając, że "]
  whenStep := ["* ", "Jeżeli ", "Jeśli ", "Gdy ", "Kiedy "]
  thenStep := ["* ", "Wtedy "]
  andStep := ["* ", "Oraz ", "I "]
  butStep := ["* ", "Ale "]

def portuguese : Vocabulary where
  code := "pt"
  name := "Portuguese"
  native := "português"
  feature := ["Funcionalidade", "Característica", "Caracteristica"]
  background := ["Contexto", "Cenário de Fundo", "Cenario de Fundo", "Fundo"]
  rule := ["Regra"]
  scenario := ["Exemplo", "Cenário", "Cenario"]
  scenarioOutline :=
    ["Esquema do Cenário", "Esquema do Cenario", "Delineação do Cenário",
      "Delineacao do Cenario"]
  examples := ["Exemplos", "Cenários", "Cenarios"]
  givenStep := ["* ", "Dado ", "Dada ", "Dados ", "Dadas "]
  whenStep := ["* ", "Quando "]
  thenStep := ["* ", "Então ", "Entao "]
  andStep := ["* ", "E "]
  butStep := ["* ", "Mas "]

def romanian : Vocabulary where
  code := "ro"
  name := "Romanian"
  native := "română"
  feature := ["Functionalitate", "Funcționalitate", "Funcţionalitate"]
  background := ["Context"]
  rule := ["Rule"]
  scenario := ["Exemplu", "Scenariu"]
  scenarioOutline := ["Structura scenariu", "Structură scenariu"]
  examples := ["Exemple"]
  givenStep :=
    ["* ", "Date fiind ", "Dat fiind ", "Dată fiind", "Dati fiind ", "Dați fiind ",
      "Daţi fiind "]
  whenStep := ["* ", "Cand ", "Când "]
  thenStep := ["* ", "Atunci "]
  andStep := ["* ", "Si ", "Și ", "Şi "]
  butStep := ["* ", "Dar "]

def russian : Vocabulary where
  code := "ru"
  name := "Russian"
  native := "русский"
  feature := ["Функция", "Функциональность", "Функционал", "Свойство", "Фича"]
  background := ["Предыстория", "Контекст"]
  rule := ["Правило"]
  scenario := ["Пример", "Сценарий"]
  scenarioOutline := ["Структура сценария", "Шаблон сценария"]
  examples := ["Примеры"]
  givenStep := ["* ", "Допустим ", "Дано ", "Пусть "]
  whenStep := ["* ", "Когда ", "Если "]
  thenStep := ["* ", "То ", "Затем ", "Тогда "]
  andStep := ["* ", "И ", "К тому же ", "Также "]
  butStep := ["* ", "Но ", "А ", "Иначе "]

def slovak : Vocabulary where
  code := "sk"
  name := "Slovak"
  native := "Slovensky"
  feature := ["Požiadavka", "Funkcia", "Vlastnosť"]
  background := ["Pozadie"]
  rule := ["Rule"]
  scenario := ["Príklad", "Scenár"]
  scenarioOutline := ["Náčrt Scenáru", "Náčrt Scenára", "Osnova Scenára"]
  examples := ["Príklady"]
  givenStep := ["* ", "Pokiaľ ", "Za predpokladu "]
  whenStep := ["* ", "Keď ", "Ak "]
  thenStep := ["* ", "Tak ", "Potom "]
  andStep := ["* ", "A ", "A tiež ", "A taktiež ", "A zároveň "]
  butStep := ["* ", "Ale "]

def slovenian : Vocabulary where
  code := "sl"
  name := "Slovenian"
  native := "Slovenski"
  feature := ["Funkcionalnost", "Funkcija", "Možnosti", "Moznosti", "Lastnost", "Značilnost"]
  background := ["Kontekst", "Osnova", "Ozadje"]
  rule := ["Rule"]
  scenario := ["Primer", "Scenarij"]
  scenarioOutline := ["Struktura scenarija", "Skica", "Koncept", "Oris scenarija", "Osnutek"]
  examples := ["Primeri", "Scenariji"]
  givenStep := ["Dano ", "Podano ", "Zaradi ", "Privzeto "]
  whenStep := ["Ko ", "Ce ", "Če ", "Kadar "]
  thenStep := ["Nato ", "Potem ", "Takrat "]
  andStep := ["In ", "Ter "]
  butStep := ["Toda ", "Ampak ", "Vendar "]

def serbian : Vocabulary where
  code := "sr-Cyrl"
  name := "Serbian"
  native := "Српски"
  feature := ["Функционалност", "Могућност", "Особина"]
  background := ["Контекст", "Основа", "Позадина"]
  rule := ["Правило"]
  scenario := ["Пример", "Сценарио", "Пример"]
  scenarioOutline := ["Структура сценарија", "Скица", "Концепт"]
  examples := ["Примери", "Сценарији"]
  givenStep := ["* ", "За дато ", "За дате ", "За дати "]
  whenStep := ["* ", "Када ", "Кад "]
  thenStep := ["* ", "Онда "]
  andStep := ["* ", "И "]
  butStep := ["* ", "Али "]

def serbianLatin : Vocabulary where
  code := "sr-Latn"
  name := "Serbian (Latin)"
  native := "Srpski (Latinica)"
  feature := ["Funkcionalnost", "Mogućnost", "Mogucnost", "Osobina"]
  background := ["Kontekst", "Osnova", "Pozadina"]
  rule := ["Pravilo"]
  scenario := ["Scenario", "Primer"]
  scenarioOutline := ["Struktura scenarija", "Skica", "Koncept"]
  examples := ["Primeri", "Scenariji"]
  givenStep := ["* ", "Za dato ", "Za date ", "Za dati "]
  whenStep := ["* ", "Kada ", "Kad "]
  thenStep := ["* ", "Onda "]
  andStep := ["* ", "I "]
  butStep := ["* ", "Ali "]

def swedish : Vocabulary where
  code := "sv"
  name := "Swedish"
  native := "Svenska"
  feature := ["Egenskap"]
  background := ["Bakgrund"]
  rule := ["Regel"]
  scenario := ["Scenario"]
  scenarioOutline := ["Abstrakt Scenario", "Scenariomall"]
  examples := ["Exempel"]
  givenStep := ["* ", "Givet "]
  whenStep := ["* ", "När "]
  thenStep := ["* ", "Så "]
  andStep := ["* ", "Och "]
  butStep := ["* ", "Men "]

def tamil : Vocabulary where
  code := "ta"
  name := "Tamil"
  native := "தமிழ்"
  feature := ["அம்சம்", "வணிக தேவை", "திறன்"]
  background := ["பின்னணி"]
  rule := ["Rule"]
  scenario := ["உதாரணமாக", "காட்சி"]
  scenarioOutline := ["காட்சி சுருக்கம்", "காட்சி வார்ப்புரு"]
  examples := ["எடுத்துக்காட்டுகள்", "காட்சிகள்", "நிலைமைகளில்"]
  givenStep := ["* ", "கொடுக்கப்பட்ட "]
  whenStep := ["* ", "எப்போது "]
  thenStep := ["* ", "அப்பொழுது "]
  andStep := ["* ", "மேலும்  ", "மற்றும் "]
  butStep := ["* ", "ஆனால்  "]

def telugu : Vocabulary where
  code := "te"
  name := "Telugu"
  native := "తెలుగు"
  feature := ["గుణము"]
  background := ["నేపథ్యం"]
  rule := ["Rule"]
  scenario := ["ఉదాహరణ", "సన్నివేశం"]
  scenarioOutline := ["కథనం"]
  examples := ["ఉదాహరణలు"]
  givenStep := ["* ", "చెప్పబడినది "]
  whenStep := ["* ", "ఈ పరిస్థితిలో "]
  thenStep := ["* ", "అప్పుడు "]
  andStep := ["* ", "మరియు "]
  butStep := ["* ", "కాని "]

def thai : Vocabulary where
  code := "th"
  name := "Thai"
  native := "ไทย"
  feature := ["โครงหลัก", "ความต้องการทางธุรกิจ", "ความสามารถ"]
  background := ["แนวคิด"]
  rule := ["Rule"]
  scenario := ["เหตุการณ์"]
  scenarioOutline := ["สรุปเหตุการณ์", "โครงสร้างของเหตุการณ์"]
  examples := ["ชุดของตัวอย่าง", "ชุดของเหตุการณ์"]
  givenStep := ["* ", "กำหนดให้ "]
  whenStep := ["* ", "เมื่อ "]
  thenStep := ["* ", "ดังนั้น "]
  andStep := ["* ", "และ "]
  butStep := ["* ", "แต่ "]

def klingon : Vocabulary where
  code := "tlh"
  name := "Klingon"
  native := "tlhIngan"
  feature := ["Qap", "Qu'meH 'ut", "perbogh", "poQbogh malja'", "laH"]
  background := ["mo'"]
  rule := ["Rule"]
  scenario := ["lut"]
  scenarioOutline := ["lut chovnatlh"]
  examples := ["ghantoH", "lutmey"]
  givenStep := ["* ", "ghu' noblu' ", "DaH ghu' bejlu' "]
  whenStep := ["* ", "qaSDI' "]
  thenStep := ["* ", "vaj "]
  andStep := ["* ", "'ej ", "latlh "]
  butStep := ["* ", "'ach ", "'a "]

def turkish : Vocabulary where
  code := "tr"
  name := "Turkish"
  native := "Türkçe"
  feature := ["Özellik"]
  background := ["Geçmiş"]
  rule := ["Kural"]
  scenario := ["Örnek", "Senaryo"]
  scenarioOutline := ["Senaryo taslağı"]
  examples := ["Örnekler"]
  givenStep := ["* ", "Diyelim ki "]
  whenStep := ["* ", "Eğer ki "]
  thenStep := ["* ", "O zaman "]
  andStep := ["* ", "Ve "]
  butStep := ["* ", "Fakat ", "Ama "]

def tatar : Vocabulary where
  code := "tt"
  name := "Tatar"
  native := "Татарча"
  feature := ["Мөмкинлек", "Үзенчәлеклелек"]
  background := ["Кереш"]
  rule := ["Rule"]
  scenario := ["Сценарий"]
  scenarioOutline := ["Сценарийның төзелеше"]
  examples := ["Үрнәкләр", "Мисаллар"]
  givenStep := ["* ", "Әйтик "]
  whenStep := ["* ", "Әгәр "]
  thenStep := ["* ", "Нәтиҗәдә "]
  andStep := ["* ", "Һәм ", "Вә "]
  butStep := ["* ", "Ләкин ", "Әмма "]

def ukrainian : Vocabulary where
  code := "uk"
  name := "Ukrainian"
  native := "Українська"
  feature := ["Функціонал"]
  background := ["Передумова"]
  rule := ["Rule"]
  scenario := ["Приклад", "Сценарій"]
  scenarioOutline := ["Структура сценарію"]
  examples := ["Приклади"]
  givenStep := ["* ", "Припустимо ", "Припустимо, що ", "Нехай ", "Дано "]
  whenStep := ["* ", "Якщо ", "Коли "]
  thenStep := ["* ", "То ", "Тоді "]
  andStep := ["* ", "І ", "А також ", "Та "]
  butStep := ["* ", "Але "]

def urdu : Vocabulary where
  code := "ur"
  name := "Urdu"
  native := "اردو"
  feature := ["صلاحیت", "کاروبار کی ضرورت", "خصوصیت"]
  background := ["پس منظر"]
  rule := ["Rule"]
  scenario := ["منظرنامہ"]
  scenarioOutline := ["منظر نامے کا خاکہ"]
  examples := ["مثالیں"]
  givenStep := ["* ", "اگر ", "بالفرض ", "فرض کیا "]
  whenStep := ["* ", "جب "]
  thenStep := ["* ", "پھر ", "تب "]
  andStep := ["* ", "اور "]
  butStep := ["* ", "لیکن "]

def uzbek : Vocabulary where
  code := "uz"
  name := "Uzbek"
  native := "Узбекча"
  feature := ["Функционал"]
  background := ["Тарих"]
  rule := ["Rule"]
  scenario := ["Сценарий"]
  scenarioOutline := ["Сценарий структураси"]
  examples := ["Мисоллар"]
  givenStep := ["* ", "Belgilangan "]
  whenStep := ["* ", "Агар "]
  thenStep := ["* ", "Унда "]
  andStep := ["* ", "Ва "]
  butStep := ["* ", "Лекин ", "Бирок ", "Аммо "]

def vietnamese : Vocabulary where
  code := "vi"
  name := "Vietnamese"
  native := "Tiếng Việt"
  feature := ["Tính năng"]
  background := ["Bối cảnh"]
  rule := ["Rule"]
  scenario := ["Tình huống", "Kịch bản"]
  scenarioOutline := ["Khung tình huống", "Khung kịch bản"]
  examples := ["Dữ liệu"]
  givenStep := ["* ", "Biết ", "Cho "]
  whenStep := ["* ", "Khi "]
  thenStep := ["* ", "Thì "]
  andStep := ["* ", "Và "]
  butStep := ["* ", "Nhưng "]

def chineseSimplified : Vocabulary where
  code := "zh-CN"
  name := "Chinese simplified"
  native := "简体中文"
  feature := ["功能"]
  background := ["背景"]
  rule := ["Rule", "规则"]
  scenario := ["场景", "剧本"]
  scenarioOutline := ["场景大纲", "剧本大纲"]
  examples := ["例子"]
  givenStep := ["* ", "假如", "假设", "假定"]
  whenStep := ["* ", "当"]
  thenStep := ["* ", "那么"]
  andStep := ["* ", "而且", "并且", "同时"]
  butStep := ["* ", "但是"]

def chineseTraditional : Vocabulary where
  code := "zh-TW"
  name := "Chinese traditional"
  native := "繁體中文"
  feature := ["功能"]
  background := ["背景"]
  rule := ["Rule"]
  scenario := ["場景", "劇本"]
  scenarioOutline := ["場景大綱", "劇本大綱"]
  examples := ["例子"]
  givenStep := ["* ", "假如", "假設", "假定"]
  whenStep := ["* ", "當"]
  thenStep := ["* ", "那麼"]
  andStep := ["* ", "而且", "並且", "同時"]
  butStep := ["* ", "但是"]

/-- Every language, in the order of the codes. -/
def all : List Vocabulary :=
  [afrikaans, armenian, aragonese, arabic, asturian, azerbaijani, belarusian, bulgarian, malay,
    bosnian, catalan, czech, welsh, danish, german, greek, emoji, english, scouse, australian,
    lolcat, oldEnglish, pirate, texas, esperanto, spanish, estonian, persian, finnish, french,
    irish, gujarati, galician, hebrew, hindi, croatian, creole, hungarian, indonesian, icelandic,
    italian, japanese, javanese, georgian, kannada, korean, lithuanian, luxemburgish, latvian,
    macedonian, macedonianLatin, mongolian, marathi, nepali, dutch, norwegian, panjabi, polish,
    portuguese, romanian, russian, slovak, slovenian, serbian, serbianLatin, swedish, tamil,
    telugu, thai, klingon, turkish, tatar, ukrainian, urdu, uzbek, vietnamese, chineseSimplified,
    chineseTraditional]

end Vocabulary

/-- What can go wrong when a dialect or a role is looked up. -/
inductive LookupError where
  | unknownLanguage (code : String)
  | unknownRole (text : String)
  deriving DecidableEq, Repr

def LookupError.message : LookupError → String
  | unknownLanguage code => "unknown language: " ++ code
  | unknownRole text => "unknown keyword role: " ++ text

namespace Dialect

def bundled : List Dialect := Vocabulary.all.map Vocabulary.dialect

def english : Dialect := Vocabulary.english.dialect

/-- The dialect of a language code. -/
def find (code : String) : Except LookupError Dialect :=
  match bundled.find? (·.code == code) with
  | some d => .ok d
  | none => .error (.unknownLanguage code)

/-- The codes of all languages, sorted. -/
def codes : List String := (bundled.map (·.code)).mergeSort fun a b => decide (a ≤ b)

end Dialect

/-- The role a text names, or the trimmed text that names none. -/
def Role.read (t : Text) : Except LookupError Role :=
  match Role.ofText? t with
  | some r => .ok r
  | none => .error (.unknownRole (String.ofList (Text.trim t)))

end GherkinTree
