/-!
# Rowwise.Calendar.Locale — names and formats of places

A locale holds the names of weekdays and months, the two halves of the day, the mark of decimals, and its usual formats
of dates and times as patterns.  Locales are found by their exact names, in which a hyphen may stand for the underscore.
-/

namespace Rowwise

/-- The names and formats of a place; weekdays start on Sunday.  An empty `halfDayTime` means that the place does not
divide the day: `time` is used instead. -/
structure Locale where
  name : String
  shortDays : List String
  days : List String
  shortMonths : List String
  months : List String
  morning : String
  afternoon : String
  dateTime : String
  date : String
  time : String
  halfDayTime : String
  point : String
deriving DecidableEq, Repr

namespace Locale

/-- The plain English locale, which holds where none is named. -/
def posix : Locale where
  name := "POSIX"
  shortDays := ["Sun", "Mon", "Tue", "Wed", "Thu", "Fri", "Sat"]
  days := ["Sunday", "Monday", "Tuesday", "Wednesday", "Thursday", "Friday", "Saturday"]
  shortMonths := ["Jan", "Feb", "Mar", "Apr", "May", "Jun", "Jul", "Aug", "Sep", "Oct", "Nov", "Dec"]
  months :=
    ["January", "February", "March", "April", "May", "June",
      "July", "August", "September", "October", "November", "December"]
  morning := "AM"
  afternoon := "PM"
  dateTime := "%a %b %e %H:%M:%S %Y"
  date := "%m/%d/%y"
  time := "%H:%M:%S"
  halfDayTime := "%I:%M:%S %p"
  point := "."

/-- English of the United States. -/
def american : Locale where
  name := "en_US"
  shortDays := ["Sun", "Mon", "Tue", "Wed", "Thu", "Fri", "Sat"]
  days := ["Sunday", "Monday", "Tuesday", "Wednesday", "Thursday", "Friday", "Saturday"]
  shortMonths := ["Jan", "Feb", "Mar", "Apr", "May", "Jun", "Jul", "Aug", "Sep", "Oct", "Nov", "Dec"]
  months :=
    ["January", "February", "March", "April", "May", "June",
      "July", "August", "September", "October", "November", "December"]
  morning := "AM"
  afternoon := "PM"
  dateTime := "%a %d %b %Y %I:%M:%S %p %Z"
  date := "%m/%d/%Y"
  time := "%I:%M:%S %p"
  halfDayTime := "%I:%M:%S %p"
  point := "."

/-- English of Great Britain. -/
def british : Locale where
  name := "en_GB"
  shortDays := ["Sun", "Mon", "Tue", "Wed", "Thu", "Fri", "Sat"]
  days := ["Sunday", "Monday", "Tuesday", "Wednesday", "Thursday", "Friday", "Saturday"]
  shortMonths := ["Jan", "Feb", "Mar", "Apr", "May", "Jun", "Jul", "Aug", "Sep", "Oct", "Nov", "Dec"]
  months :=
    ["January", "February", "March", "April", "May", "June",
      "July", "August", "September", "October", "November", "December"]
  morning := "am"
  afternoon := "pm"
  dateTime := "%a %d %b %Y %T %Z"
  date := "%d/%m/%y"
  time := "%T"
  halfDayTime := "%l:%M:%S %P %Z"
  point := "."

/-- German of Germany. -/
def german : Locale where
  name := "de_DE"
  shortDays := ["So", "Mo", "Di", "Mi", "Do", "Fr", "Sa"]
  days := ["Sonntag", "Montag", "Dienstag", "Mittwoch", "Donnerstag", "Freitag", "Samstag"]
  shortMonths := ["Jan", "Feb", "Mär", "Apr", "Mai", "Jun", "Jul", "Aug", "Sep", "Okt", "Nov", "Dez"]
  months :=
    ["Januar", "Februar", "März", "April", "Mai", "Juni",
      "Juli", "August", "September", "Oktober", "November", "Dezember"]
  morning := ""
  afternoon := ""
  dateTime := "%a %d %b %Y %T %Z"
  date := "%d.%m.%Y"
  time := "%T"
  halfDayTime := ""
  point := ","

/-- French of France. -/
def french : Locale where
  name := "fr_FR"
  shortDays := ["dim.", "lun.", "mar.", "mer.", "jeu.", "ven.", "sam."]
  days := ["dimanche", "lundi", "mardi", "mercredi", "jeudi", "vendredi", "samedi"]
  shortMonths := ["janv.", "févr.", "mars", "avril", "mai", "juin", "juil.", "août", "sept.", "oct.", "nov.", "déc."]
  months :=
    ["janvier", "février", "mars", "avril", "mai", "juin",
      "juillet", "août", "septembre", "octobre", "novembre", "décembre"]
  morning := ""
  afternoon := ""
  dateTime := "%a %d %b %Y %T %Z"
  date := "%d/%m/%Y"
  time := "%T"
  halfDayTime := ""
  point := ","

/-- Spanish of Spain. -/
def spanish : Locale where
  name := "es_ES"
  shortDays := ["dom", "lun", "mar", "mié", "jue", "vie", "sáb"]
  days := ["domingo", "lunes", "martes", "miércoles", "jueves", "viernes", "sábado"]
  shortMonths := ["ene", "feb", "mar", "abr", "may", "jun", "jul", "ago", "sep", "oct", "nov", "dic"]
  months :=
    ["enero", "febrero", "marzo", "abril", "mayo", "junio",
      "julio", "agosto", "septiembre", "octubre", "noviembre", "diciembre"]
  morning := ""
  afternoon := ""
  dateTime := "%a %d %b %Y %T %Z"
  date := "%d/%m/%y"
  time := "%T"
  halfDayTime := ""
  point := ","

/-- Portuguese of Brazil. -/
def brazilian : Locale where
  name := "pt_BR"
  shortDays := ["dom", "seg", "ter", "qua", "qui", "sex", "sáb"]
  days := ["domingo", "segunda", "terça", "quarta", "quinta", "sexta", "sábado"]
  shortMonths := ["jan", "fev", "mar", "abr", "mai", "jun", "jul", "ago", "set", "out", "nov", "dez"]
  months :=
    ["janeiro", "fevereiro", "março", "abril", "maio", "junho",
      "julho", "agosto", "setembro", "outubro", "novembro", "dezembro"]
  morning := ""
  afternoon := ""
  dateTime := "%a %d %b %Y %T %Z"
  date := "%d/%m/%Y"
  time := "%T"
  halfDayTime := ""
  point := ","

/-- Japanese. -/
def japanese : Locale where
  name := "ja_JP"
  shortDays := ["日", "月", "火", "水", "木", "金", "土"]
  days := ["日曜日", "月曜日", "火曜日", "水曜日", "木曜日", "金曜日", "土曜日"]
  shortMonths := [" 1月", " 2月", " 3月", " 4月", " 5月", " 6月", " 7月", " 8月", " 9月", "10月", "11月", "12月"]
  months :=
    ["1月", "2月", "3月", "4月", "5月", "6月", "7月", "8月", "9月", "10月", "11月", "12月"]
  morning := "午前"
  afternoon := "午後"
  dateTime := "%Y年%m月%d日 %H時%M分%S秒"
  date := "%Y年%m月%d日"
  time := "%H時%M分%S秒"
  halfDayTime := "%p%I時%M分%S秒"
  point := "."

/-- German of Germany, with its currency. -/
def germanEuro : Locale := { german with name := "de_DE@euro" }

/-- Serbian of Serbia in Latin letters. -/
def serbianLatin : Locale where
  name := "sr_RS@latin"
  shortDays := ["ned", "pon", "uto", "sre", "čet", "pet", "sub"]
  days := ["nedelja", "ponedeljak", "utorak", "sreda", "četvrtak", "petak", "subota"]
  shortMonths := ["jan", "feb", "mar", "apr", "maj", "jun", "jul", "avg", "sep", "okt", "nov", "dec"]
  months :=
    ["januar", "februar", "mart", "april", "maj", "jun",
      "jul", "avgust", "septembar", "oktobar", "novembar", "decembar"]
  morning := ""
  afternoon := ""
  dateTime := "%A, %d. %B %Y. %T %Z"
  date := "%d.%m.%Y."
  time := "%T"
  halfDayTime := ""
  point := ","

/-- All locales. -/
def all : List Locale :=
  [posix, american, british, german, french, spanish, brazilian, japanese, germanEuro, serbianLatin]

/-- The locale of that name, in which hyphens count as underscores. -/
def named? (name : List Char) : Option Locale :=
  let wanted := name.map fun c => if c = '-' then '_' else c
  all.find? fun l => l.name.toList == wanted

end Locale

end Rowwise
