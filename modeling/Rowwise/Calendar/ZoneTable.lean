import Rowwise.Calendar.Zone

/-!
# Rowwise.Calendar.ZoneTable — the zones that have names

The history of each zone as transitions, and the rules of those that change twice a year, written out up to the year
2099.  Zones are found by their exact names.
-/

namespace Rowwise.Zone

/-! ### Offsets -/

/-- Offset `LMT` of 3208 seconds. -/
def berlinMean : Offset := ⟨3208, "LMT"⟩

/-- Offset `CET` of 3600 seconds. -/
def cet : Offset := ⟨3600, "CET"⟩

/-- Offset `CEST` of 7200 seconds. -/
def cest : Offset := ⟨7200, "CEST"⟩

/-- Offset `CEMT` of 10800 seconds. -/
def cemt : Offset := ⟨10800, "CEMT"⟩

/-- Offset `LMT` of 1050 seconds. -/
def brusselsMean : Offset := ⟨1050, "LMT"⟩

/-- Offset `BMT` of 1050 seconds. -/
def brusselsCity : Offset := ⟨1050, "BMT"⟩

/-- Offset `WET` of 0 seconds. -/
def wet : Offset := ⟨0, "WET"⟩

/-- Offset `WEST` of 3600 seconds. -/
def west : Offset := ⟨3600, "WEST"⟩

/-- Offset `LMT` of -17762 seconds. -/
def newYorkMean : Offset := ⟨-17762, "LMT"⟩

/-- Offset `EST` of -18000 seconds. -/
def est : Offset := ⟨-18000, "EST"⟩

/-- Offset `EDT` of -14400 seconds. -/
def edt : Offset := ⟨-14400, "EDT"⟩

/-- Offset `EWT` of -14400 seconds. -/
def ewt : Offset := ⟨-14400, "EWT"⟩

/-- Offset `EPT` of -14400 seconds. -/
def ept : Offset := ⟨-14400, "EPT"⟩

/-- Offset `LMT` of -19088 seconds. -/
def panamaMean : Offset := ⟨-19088, "LMT"⟩

/-- Offset `CMT` of -19176 seconds. -/
def panamaCity : Offset := ⟨-19176, "CMT"⟩

/-- Offset `LMT` of 33539 seconds. -/
def tokyoMean : Offset := ⟨33539, "LMT"⟩

/-- Offset `JST` of 32400 seconds. -/
def jst : Offset := ⟨32400, "JST"⟩

/-- Offset `JDT` of 36000 seconds. -/
def jdt : Offset := ⟨36000, "JDT"⟩

/-- Offset `LMT` of 21208 seconds. -/
def kolkataMean : Offset := ⟨21208, "LMT"⟩

/-- Offset `HMT` of 21200 seconds. -/
def howrah : Offset := ⟨21200, "HMT"⟩

/-- Offset `MMT` of 19270 seconds. -/
def madras : Offset := ⟨19270, "MMT"⟩

/-- Offset `IST` of 19800 seconds. -/
def ist : Offset := ⟨19800, "IST"⟩

/-- Offset `+0630` of 23400 seconds. -/
def plus0630 : Offset := ⟨23400, "+0630"⟩

/-- Offset `LMT` of 20476 seconds. -/
def kathmanduMean : Offset := ⟨20476, "LMT"⟩

/-- Offset `+0530` of 19800 seconds. -/
def plus0530 : Offset := ⟨19800, "+0530"⟩

/-- Offset `+0545` of 20700 seconds. -/
def plus0545 : Offset := ⟨20700, "+0545"⟩

/-- Offset `LMT` of 38180 seconds. -/
def lordHoweMean : Offset := ⟨38180, "LMT"⟩

/-- Offset `AEST` of 36000 seconds. -/
def aest : Offset := ⟨36000, "AEST"⟩

/-- Offset `+1030` of 37800 seconds. -/
def plus1030 : Offset := ⟨37800, "+1030"⟩

/-- Offset `+1130` of 41400 seconds. -/
def plus1130 : Offset := ⟨41400, "+1130"⟩

/-- Offset `+11` of 39600 seconds. -/
def plus11 : Offset := ⟨39600, "+11"⟩

/-- Offset `LMT` of 45184 seconds. -/
def apiaMeanWest : Offset := ⟨45184, "LMT"⟩

/-- Offset `LMT` of -41216 seconds. -/
def apiaMeanEast : Offset := ⟨-41216, "LMT"⟩

/-- Offset `-1130` of -41400 seconds. -/
def minus1130 : Offset := ⟨-41400, "-1130"⟩

/-- Offset `-11` of -39600 seconds. -/
def minus11 : Offset := ⟨-39600, "-11"⟩

/-- Offset `-10` of -36000 seconds. -/
def minus10 : Offset := ⟨-36000, "-10"⟩

/-- Offset `+14` of 50400 seconds. -/
def plus14 : Offset := ⟨50400, "+14"⟩

/-- Offset `+13` of 46800 seconds. -/
def plus13 : Offset := ⟨46800, "+13"⟩

/-! ### Yearly rules -/

/-- The first Sunday on or after a day. -/
def sundayFrom (d : Date) : Date := d.addDays ((7 - d.weekday.fromSunday : Nat) % 7 : Nat)

/-- The last Sunday of a month of 31 days. -/
def lastSunday (year : Int) (month : Nat) : Date := sundayFrom (.ofCivil ⟨year, month, 25⟩)

/-- The transition at a second of a day of UTC. -/
def transitionAt (d : Date) (second : Int) (offset : Offset) : Transition := ⟨d.day * 86400 + second, offset⟩

/-- Summer time of Central Europe: from the last Sunday of March to that of October, at one o'clock UTC. -/
def europeanYear (year : Int) : List Transition :=
  [transitionAt (lastSunday year 3) 3600 cest, transitionAt (lastSunday year 10) 3600 cet]

/-- Summer time of New York: from the second Sunday of March to the first of November, at two o'clock local time. -/
def newYorkYear (year : Int) : List Transition :=
  [transitionAt (sundayFrom (.ofCivil ⟨year, 3, 8⟩)) 25200 edt,
    transitionAt (sundayFrom (.ofCivil ⟨year, 11, 1⟩)) 21600 est]

/-- Summer time of Lord Howe Island: it ends on the first Sunday of April and begins on that of October, at two o'clock
local time. -/
def lordHoweYear (year : Int) : List Transition :=
  [transitionAt (sundayFrom (.ofCivil ⟨year, 4, 1⟩)) (-32400) plus1030,
    transitionAt (sundayFrom (.ofCivil ⟨year, 10, 1⟩)) (-30600) plus11]

/-- The transitions of a yearly rule from a year up to 2099. -/
def yearsFrom (start : Int) (rule : Int → List Transition) : List Transition :=
  (List.range (2100 - start).toNat).flatMap fun (i : Nat) => rule (start + i)

/-! ### Histories -/

/-- Transitions of `Europe/Berlin` before its yearly rule. -/
def berlinHistory : List Transition :=
  [⟨-2422054408, cet⟩, ⟨-1693706400, cest⟩, ⟨-1680483600, cet⟩, ⟨-1663455600, cest⟩, ⟨-1650150000, cet⟩,
    ⟨-1632006000, cest⟩, ⟨-1618700400, cet⟩, ⟨-938905200, cest⟩, ⟨-857257200, cet⟩, ⟨-844556400, cest⟩,
    ⟨-828226800, cet⟩, ⟨-812502000, cest⟩, ⟨-796777200, cet⟩, ⟨-781052400, cest⟩, ⟨-776563200, cemt⟩,
    ⟨-765936000, cest⟩, ⟨-761180400, cet⟩, ⟨-748479600, cest⟩, ⟨-733273200, cet⟩, ⟨-717631200, cest⟩,
    ⟨-714610800, cemt⟩, ⟨-710380800, cest⟩, ⟨-701910000, cet⟩, ⟨-684975600, cest⟩, ⟨-670460400, cet⟩,
    ⟨-654130800, cest⟩, ⟨-639010800, cet⟩, ⟨323830800, cest⟩, ⟨338950800, cet⟩, ⟨354675600, cest⟩,
    ⟨370400400, cet⟩, ⟨386125200, cest⟩, ⟨401850000, cet⟩, ⟨417574800, cest⟩, ⟨433299600, cet⟩,
    ⟨449024400, cest⟩, ⟨465354000, cet⟩, ⟨481078800, cest⟩, ⟨496803600, cet⟩, ⟨512528400, cest⟩,
    ⟨528253200, cet⟩, ⟨543978000, cest⟩, ⟨559702800, cet⟩, ⟨575427600, cest⟩, ⟨591152400, cet⟩,
    ⟨606877200, cest⟩, ⟨622602000, cet⟩, ⟨638326800, cest⟩, ⟨654656400, cet⟩, ⟨670381200, cest⟩,
    ⟨686106000, cet⟩, ⟨701830800, cest⟩, ⟨717555600, cet⟩, ⟨733280400, cest⟩, ⟨749005200, cet⟩,
    ⟨764730000, cest⟩, ⟨780454800, cet⟩, ⟨796179600, cest⟩, ⟨811904400, cet⟩]

/-- Transitions of `CET` before its yearly rule. -/
def brusselsHistory : List Transition :=
  [⟨-2840141850, brusselsCity⟩, ⟨-2450995200, wet⟩, ⟨-1740355200, cet⟩, ⟨-1693702800, cest⟩, ⟨-1680483600, cet⟩,
    ⟨-1663455600, cest⟩, ⟨-1650150000, cet⟩, ⟨-1632006000, cest⟩, ⟨-1618700400, cet⟩, ⟨-1613826000, wet⟩,
    ⟨-1604278800, west⟩, ⟨-1585530000, wet⟩, ⟨-1574038800, west⟩, ⟨-1552266000, wet⟩, ⟨-1539997200, west⟩,
    ⟨-1520557200, wet⟩, ⟨-1507510800, west⟩, ⟨-1490576400, wet⟩, ⟨-1473642000, west⟩, ⟨-1459126800, wet⟩,
    ⟨-1444006800, west⟩, ⟨-1427677200, wet⟩, ⟨-1411952400, west⟩, ⟨-1396227600, wet⟩, ⟨-1379293200, west⟩,
    ⟨-1364778000, wet⟩, ⟨-1348448400, west⟩, ⟨-1333328400, wet⟩, ⟨-1316394000, west⟩, ⟨-1301263200, wet⟩,
    ⟨-1284328800, west⟩, ⟨-1269813600, wet⟩, ⟨-1253484000, west⟩, ⟨-1238364000, wet⟩, ⟨-1221429600, west⟩,
    ⟨-1206914400, wet⟩, ⟨-1191189600, west⟩, ⟨-1175464800, wet⟩, ⟨-1160344800, west⟩, ⟨-1143410400, wet⟩,
    ⟨-1127685600, west⟩, ⟨-1111960800, wet⟩, ⟨-1096840800, west⟩, ⟨-1080511200, wet⟩, ⟨-1063576800, west⟩,
    ⟨-1049061600, wet⟩, ⟨-1033336800, west⟩, ⟨-1017612000, wet⟩, ⟨-1002492000, west⟩, ⟨-986162400, wet⟩,
    ⟨-969228000, west⟩, ⟨-950479200, wet⟩, ⟨-942012000, west⟩, ⟨-934668000, cest⟩, ⟨-857257200, cet⟩,
    ⟨-844556400, cest⟩, ⟨-828226800, cet⟩, ⟨-812502000, cest⟩, ⟨-798073200, cet⟩, ⟨-781052400, cest⟩,
    ⟨-766623600, cet⟩, ⟨-745455600, cest⟩, ⟨-733273200, cet⟩, ⟨228877200, cest⟩, ⟨243997200, cet⟩,
    ⟨260326800, cest⟩, ⟨276051600, cet⟩, ⟨291776400, cest⟩, ⟨307501200, cet⟩, ⟨323830800, cest⟩,
    ⟨338950800, cet⟩, ⟨354675600, cest⟩, ⟨370400400, cet⟩, ⟨386125200, cest⟩, ⟨401850000, cet⟩,
    ⟨417574800, cest⟩, ⟨433299600, cet⟩, ⟨449024400, cest⟩, ⟨465354000, cet⟩, ⟨481078800, cest⟩,
    ⟨496803600, cet⟩, ⟨512528400, cest⟩, ⟨528253200, cet⟩, ⟨543978000, cest⟩, ⟨559702800, cet⟩,
    ⟨575427600, cest⟩, ⟨591152400, cet⟩, ⟨606877200, cest⟩, ⟨622602000, cet⟩, ⟨638326800, cest⟩,
    ⟨654656400, cet⟩, ⟨670381200, cest⟩, ⟨686106000, cet⟩, ⟨701830800, cest⟩, ⟨717555600, cet⟩,
    ⟨733280400, cest⟩, ⟨749005200, cet⟩, ⟨764730000, cest⟩, ⟨780454800, cet⟩, ⟨796179600, cest⟩,
    ⟨811904400, cet⟩]

/-- Transitions of `America/New_York` before its yearly rule. -/
def newYorkHistory : List Transition :=
  [⟨-2717650800, est⟩, ⟨-1633280400, edt⟩, ⟨-1615140000, est⟩, ⟨-1601830800, edt⟩, ⟨-1583690400, est⟩,
    ⟨-1570381200, edt⟩, ⟨-1551636000, est⟩, ⟨-1536512400, edt⟩, ⟨-1523210400, est⟩, ⟨-1504458000, edt⟩,
    ⟨-1491760800, est⟩, ⟨-1473008400, edt⟩, ⟨-1459706400, est⟩, ⟨-1441558800, edt⟩, ⟨-1428256800, est⟩,
    ⟨-1410109200, edt⟩, ⟨-1396807200, est⟩, ⟨-1378659600, edt⟩, ⟨-1365357600, est⟩, ⟨-1347210000, edt⟩,
    ⟨-1333908000, est⟩, ⟨-1315155600, edt⟩, ⟨-1301853600, est⟩, ⟨-1283706000, edt⟩, ⟨-1270404000, est⟩,
    ⟨-1252256400, edt⟩, ⟨-1238954400, est⟩, ⟨-1220806800, edt⟩, ⟨-1207504800, est⟩, ⟨-1189357200, edt⟩,
    ⟨-1176055200, est⟩, ⟨-1157302800, edt⟩, ⟨-1144605600, est⟩, ⟨-1125853200, edt⟩, ⟨-1112551200, est⟩,
    ⟨-1094403600, edt⟩, ⟨-1081101600, est⟩, ⟨-1062954000, edt⟩, ⟨-1049652000, est⟩, ⟨-1031504400, edt⟩,
    ⟨-1018202400, est⟩, ⟨-1000054800, edt⟩, ⟨-986752800, est⟩, ⟨-968000400, edt⟩, ⟨-955303200, est⟩,
    ⟨-936550800, edt⟩, ⟨-923248800, est⟩, ⟨-905101200, edt⟩, ⟨-891799200, est⟩, ⟨-880218000, ewt⟩,
    ⟨-769395600, ept⟩, ⟨-765396000, est⟩, ⟨-747248400, edt⟩, ⟨-733946400, est⟩, ⟨-715798800, edt⟩,
    ⟨-702496800, est⟩, ⟨-684349200, edt⟩, ⟨-671047200, est⟩, ⟨-652899600, edt⟩, ⟨-639597600, est⟩,
    ⟨-620845200, edt⟩, ⟨-608148000, est⟩, ⟨-589395600, edt⟩, ⟨-576093600, est⟩, ⟨-557946000, edt⟩,
    ⟨-544644000, est⟩, ⟨-526496400, edt⟩, ⟨-513194400, est⟩, ⟨-495046800, edt⟩, ⟨-481744800, est⟩,
    ⟨-463597200, edt⟩, ⟨-447271200, est⟩, ⟨-431542800, edt⟩, ⟨-415821600, est⟩, ⟨-400093200, edt⟩,
    ⟨-384372000, est⟩, ⟨-368643600, edt⟩, ⟨-352922400, est⟩, ⟨-337194000, edt⟩, ⟨-321472800, est⟩,
    ⟨-305744400, edt⟩, ⟨-289418400, est⟩, ⟨-273690000, edt⟩, ⟨-257968800, est⟩, ⟨-242240400, edt⟩,
    ⟨-226519200, est⟩, ⟨-210790800, edt⟩, ⟨-195069600, est⟩, ⟨-179341200, edt⟩, ⟨-163620000, est⟩,
    ⟨-147891600, edt⟩, ⟨-131565600, est⟩, ⟨-116442000, edt⟩, ⟨-100116000, est⟩, ⟨-84387600, edt⟩,
    ⟨-68666400, est⟩, ⟨-52938000, edt⟩, ⟨-37216800, est⟩, ⟨-21488400, edt⟩, ⟨-5767200, est⟩, ⟨9961200, edt⟩,
    ⟨25682400, est⟩, ⟨41410800, edt⟩, ⟨57736800, est⟩, ⟨73465200, edt⟩, ⟨89186400, est⟩, ⟨104914800, edt⟩,
    ⟨120636000, est⟩, ⟨126687600, edt⟩, ⟨152085600, est⟩, ⟨162370800, edt⟩, ⟨183535200, est⟩, ⟨199263600, edt⟩,
    ⟨215589600, est⟩, ⟨230713200, edt⟩, ⟨247039200, est⟩, ⟨262767600, edt⟩, ⟨278488800, est⟩, ⟨294217200, edt⟩,
    ⟨309938400, est⟩, ⟨325666800, edt⟩, ⟨341388000, est⟩, ⟨357116400, edt⟩, ⟨372837600, est⟩, ⟨388566000, edt⟩,
    ⟨404892000, est⟩, ⟨420015600, edt⟩, ⟨436341600, est⟩, ⟨452070000, edt⟩, ⟨467791200, est⟩, ⟨483519600, edt⟩,
    ⟨499240800, est⟩, ⟨514969200, edt⟩, ⟨530690400, est⟩, ⟨544604400, edt⟩, ⟨562140000, est⟩, ⟨576054000, edt⟩,
    ⟨594194400, est⟩, ⟨607503600, edt⟩, ⟨625644000, est⟩, ⟨638953200, edt⟩, ⟨657093600, est⟩, ⟨671007600, edt⟩,
    ⟨688543200, est⟩, ⟨702457200, edt⟩, ⟨719992800, est⟩, ⟨733906800, edt⟩, ⟨752047200, est⟩, ⟨765356400, edt⟩,
    ⟨783496800, est⟩, ⟨796806000, edt⟩, ⟨814946400, est⟩, ⟨828860400, edt⟩, ⟨846396000, est⟩, ⟨860310000, edt⟩,
    ⟨877845600, est⟩, ⟨891759600, edt⟩, ⟨909295200, est⟩, ⟨923209200, edt⟩, ⟨941349600, est⟩, ⟨954658800, edt⟩,
    ⟨972799200, est⟩, ⟨986108400, edt⟩, ⟨1004248800, est⟩, ⟨1018162800, edt⟩, ⟨1035698400, est⟩,
    ⟨1049612400, edt⟩, ⟨1067148000, est⟩, ⟨1081062000, edt⟩, ⟨1099202400, est⟩, ⟨1112511600, edt⟩,
    ⟨1130652000, est⟩, ⟨1143961200, edt⟩, ⟨1162101600, est⟩]

/-- Transitions of `EST`. -/
def panamaHistory : List Transition :=
  [⟨-2524502512, panamaCity⟩, ⟨-1946918424, est⟩]

/-- Transitions of `Asia/Tokyo`. -/
def tokyoHistory : List Transition :=
  [⟨-2587712400, jst⟩, ⟨-683802000, jdt⟩, ⟨-672310800, jst⟩, ⟨-654771600, jdt⟩, ⟨-640861200, jst⟩,
    ⟨-620298000, jdt⟩, ⟨-609411600, jst⟩, ⟨-588848400, jdt⟩, ⟨-577962000, jst⟩]

/-- Transitions of `Asia/Kolkata`. -/
def kolkataHistory : List Transition :=
  [⟨-3645237208, howrah⟩, ⟨-3155694800, madras⟩, ⟨-2019705670, ist⟩, ⟨-891581400, plus0630⟩, ⟨-872058600, ist⟩,
    ⟨-862637400, plus0630⟩, ⟨-764145000, ist⟩]

/-- Transitions of `Asia/Kathmandu`. -/
def kathmanduHistory : List Transition :=
  [⟨-1577943676, plus0530⟩, ⟨504901800, plus0545⟩]

/-- Transitions of `Australia/Lord_Howe` before its yearly rule. -/
def lordHoweHistory : List Transition :=
  [⟨-2364114980, aest⟩, ⟨352216800, plus1030⟩, ⟨372785400, plus1130⟩, ⟨384273000, plus1030⟩,
    ⟨404839800, plus1130⟩, ⟨415722600, plus1030⟩, ⟨436289400, plus1130⟩, ⟨447172200, plus1030⟩,
    ⟨467739000, plus1130⟩, ⟨478621800, plus1030⟩, ⟨499188600, plus11⟩, ⟨511282800, plus1030⟩,
    ⟨530033400, plus11⟩, ⟨542732400, plus1030⟩, ⟨562087800, plus11⟩, ⟨574786800, plus1030⟩, ⟨594142200, plus11⟩,
    ⟨606236400, plus1030⟩, ⟨625591800, plus11⟩, ⟨636476400, plus1030⟩, ⟨657041400, plus11⟩,
    ⟨667926000, plus1030⟩, ⟨688491000, plus11⟩, ⟨699375600, plus1030⟩, ⟨719940600, plus11⟩,
    ⟨731430000, plus1030⟩, ⟨751995000, plus11⟩, ⟨762879600, plus1030⟩, ⟨783444600, plus11⟩,
    ⟨794329200, plus1030⟩, ⟨814894200, plus11⟩, ⟨828198000, plus1030⟩, ⟨846343800, plus11⟩,
    ⟨859647600, plus1030⟩, ⟨877793400, plus11⟩, ⟨891097200, plus1030⟩, ⟨909243000, plus11⟩,
    ⟨922546800, plus1030⟩, ⟨941297400, plus11⟩, ⟨953996400, plus1030⟩, ⟨967303800, plus11⟩,
    ⟨985446000, plus1030⟩, ⟨1004196600, plus11⟩, ⟨1017500400, plus1030⟩, ⟨1035646200, plus11⟩,
    ⟨1048950000, plus1030⟩, ⟨1067095800, plus11⟩, ⟨1080399600, plus1030⟩, ⟨1099150200, plus11⟩,
    ⟨1111849200, plus1030⟩, ⟨1130599800, plus11⟩, ⟨1143903600, plus1030⟩, ⟨1162049400, plus11⟩,
    ⟨1174748400, plus1030⟩, ⟨1193499000, plus11⟩]

/-- Transitions of `Pacific/Apia`. -/
def apiaHistory : List Transition :=
  [⟨-2445424384, apiaMeanEast⟩, ⟨-1861878784, minus1130⟩, ⟨-631110600, minus11⟩, ⟨1285498800, minus10⟩,
    ⟨1301752800, minus11⟩, ⟨1316872800, minus10⟩, ⟨1325239200, plus14⟩, ⟨1333202400, plus13⟩,
    ⟨1348927200, plus14⟩, ⟨1365256800, plus13⟩, ⟨1380376800, plus14⟩, ⟨1396706400, plus13⟩,
    ⟨1411826400, plus14⟩, ⟨1428156000, plus13⟩, ⟨1443276000, plus14⟩, ⟨1459605600, plus13⟩,
    ⟨1474725600, plus14⟩, ⟨1491055200, plus13⟩, ⟨1506175200, plus14⟩, ⟨1522504800, plus13⟩,
    ⟨1538229600, plus14⟩, ⟨1554559200, plus13⟩, ⟨1569679200, plus14⟩, ⟨1586008800, plus13⟩,
    ⟨1601128800, plus14⟩, ⟨1617458400, plus13⟩]

/-! ### Zones -/

/-- Universal time, the zone of calendars that name none. -/
def utc : Zone := fixed "UTC" ⟨0, "UTC"⟩

/-- The zones by name. -/
def all : List Zone :=
  [utc,
    fixed "GMT" ⟨0, "GMT"⟩,
    ⟨"Europe/Berlin", berlinMean, berlinHistory ++ yearsFrom 1996 europeanYear⟩,
    ⟨"CET", brusselsMean, brusselsHistory ++ yearsFrom 1996 europeanYear⟩,
    ⟨"America/New_York", newYorkMean, newYorkHistory ++ yearsFrom 2007 newYorkYear⟩,
    ⟨"EST", panamaMean, panamaHistory⟩,
    fixed "Etc/GMT+5" ⟨-18000, "-05"⟩,
    ⟨"Asia/Tokyo", tokyoMean, tokyoHistory⟩,
    ⟨"Asia/Kolkata", kolkataMean, kolkataHistory⟩,
    ⟨"Asia/Kathmandu", kathmanduMean, kathmanduHistory⟩,
    ⟨"Australia/Lord_Howe", lordHoweMean, lordHoweHistory ++ yearsFrom 2008 lordHoweYear⟩,
    ⟨"Pacific/Apia", apiaMeanWest, apiaHistory⟩]

/-- The zone of that exact name. -/
def named? (name : List Char) : Option Zone := all.find? fun z => z.name.toList == name

end Rowwise.Zone
