/-!
# Code pages

The charsets that give each byte one character: the names of the WHATWG Encoding Standard and its
tables. Bytes below 128 are ASCII in all of them, so a table holds the upper half. A byte that a
table leaves out is U+FFFD there.
-/

namespace FluentMerge.Charset

/-- A charset of one byte for each character. -/
inductive CodePage where
  | ibm866
  | iso8859x2
  | iso8859x3
  | iso8859x4
  | iso8859x5
  | iso8859x6
  | iso8859x7
  | iso8859x8
  | iso8859x8i
  | iso8859x10
  | iso8859x13
  | iso8859x14
  | iso8859x15
  | iso8859x16
  | koi8r
  | koi8u
  | macRoman
  | macCyrillic
  | windows874
  | windows1250
  | windows1251
  | windows1252
  | windows1253
  | windows1254
  | windows1255
  | windows1256
  | windows1257
  | windows1258
  deriving DecidableEq, Repr

namespace CodePage

/-- The name of a code page. -/
def name : CodePage → String
  | .ibm866 => "IBM866"
  | .iso8859x2 => "ISO-8859-2"
  | .iso8859x3 => "ISO-8859-3"
  | .iso8859x4 => "ISO-8859-4"
  | .iso8859x5 => "ISO-8859-5"
  | .iso8859x6 => "ISO-8859-6"
  | .iso8859x7 => "ISO-8859-7"
  | .iso8859x8 => "ISO-8859-8"
  | .iso8859x8i => "ISO-8859-8-I"
  | .iso8859x10 => "ISO-8859-10"
  | .iso8859x13 => "ISO-8859-13"
  | .iso8859x14 => "ISO-8859-14"
  | .iso8859x15 => "ISO-8859-15"
  | .iso8859x16 => "ISO-8859-16"
  | .koi8r => "KOI8-R"
  | .koi8u => "KOI8-U"
  | .macRoman => "macintosh"
  | .macCyrillic => "x-mac-cyrillic"
  | .windows874 => "windows-874"
  | .windows1250 => "windows-1250"
  | .windows1251 => "windows-1251"
  | .windows1252 => "windows-1252"
  | .windows1253 => "windows-1253"
  | .windows1254 => "windows-1254"
  | .windows1255 => "windows-1255"
  | .windows1256 => "windows-1256"
  | .windows1257 => "windows-1257"
  | .windows1258 => "windows-1258"

/-- The characters U+0080 to U+009F, which many code pages keep. -/
def upperControls : List Char := (List.range 32).map fun n => Char.ofNat (0x80 + n)

/-- The characters of a table that is written in rows. -/
def rows (texts : List String) : List Char := texts.flatMap String.toList

/-- The characters of the bytes from 128 on. -/
def upperHalf : CodePage → List Char
  | .ibm866 => rows [
    "АБВГДЕЖЗИЙКЛМНОП",
    "РСТУФХЦЧШЩЪЫЬЭЮЯ",
    "абвгдежзийклмноп",
    "░▒▓│┤╡╢╖╕╣║╗╝╜╛┐",
    "└┴┬├─┼╞╟╚╔╩╦╠═╬╧",
    "╨╤╥╙╘╒╓╫╪┘┌█▄▌▐▀",
    "рстуфхцчшщъыьэюя",
    "ЁёЄєЇїЎў°∙·√№¤■\u00a0"]
  | .iso8859x2 => upperControls ++ rows [
    "\u00a0Ą˘Ł¤ĽŚ§¨ŠŞŤŹ\u00adŽŻ",
    "°ą˛ł´ľśˇ¸šşťź˝žż",
    "ŔÁÂĂÄĹĆÇČÉĘËĚÍÎĎ",
    "ĐŃŇÓÔŐÖ×ŘŮÚŰÜÝŢß",
    "ŕáâăäĺćçčéęëěíîď",
    "đńňóôőö÷řůúűüýţ˙"]
  | .iso8859x3 => upperControls ++ rows [
    "\u00a0Ħ˘£¤\ufffdĤ§¨İŞĞĴ\u00ad\ufffdŻ",
    "°ħ²³´µĥ·¸ışğĵ½\ufffdż",
    "ÀÁÂ\ufffdÄĊĈÇÈÉÊËÌÍÎÏ",
    "\ufffdÑÒÓÔĠÖ×ĜÙÚÛÜŬŜß",
    "àáâ\ufffdäċĉçèéêëìíîï",
    "\ufffdñòóôġö÷ĝùúûüŭŝ˙"]
  | .iso8859x4 => upperControls ++ rows [
    "\u00a0ĄĸŖ¤ĨĻ§¨ŠĒĢŦ\u00adŽ¯",
    "°ą˛ŗ´ĩļˇ¸šēģŧŊžŋ",
    "ĀÁÂÃÄÅÆĮČÉĘËĖÍÎĪ",
    "ĐŅŌĶÔÕÖ×ØŲÚÛÜŨŪß",
    "āáâãäåæįčéęëėíîī",
    "đņōķôõö÷øųúûüũū˙"]
  | .iso8859x5 => upperControls ++ rows [
    "\u00a0ЁЂЃЄЅІЇЈЉЊЋЌ\u00adЎЏ",
    "АБВГДЕЖЗИЙКЛМНОП",
    "РСТУФХЦЧШЩЪЫЬЭЮЯ",
    "абвгдежзийклмноп",
    "рстуфхцчшщъыьэюя",
    "№ёђѓєѕіїјљњћќ§ўџ"]
  | .iso8859x6 => upperControls ++ rows [
    "\u00a0\ufffd\ufffd\ufffd¤\ufffd\ufffd\ufffd\ufffd\ufffd\ufffd\ufffd،\u00ad\ufffd\ufffd",
    "\ufffd\ufffd\ufffd\ufffd\ufffd\ufffd\ufffd\ufffd",
    "\ufffd\ufffd\ufffd\u061b\ufffd\ufffd\ufffd\u061f",
    "\ufffd\u0621\u0622\u0623\u0624\u0625\u0626\u0627",
    "\u0628\u0629\u062a\u062b\u062c\u062d\u062e\u062f",
    "\u0630\u0631\u0632\u0633\u0634\u0635\u0636\u0637",
    "\u0638\u0639\u063a\ufffd\ufffd\ufffd\ufffd\ufffd",
    "\u0640\u0641\u0642\u0643\u0644\u0645\u0646\u0647",
    "\u0648\u0649\u064a\u064b\u064c\u064d\u064e\u064f",
    "\u0650\u0651\u0652\ufffd\ufffd\ufffd\ufffd\ufffd",
    "\ufffd\ufffd\ufffd\ufffd\ufffd\ufffd\ufffd\ufffd"]
  | .iso8859x7 => upperControls ++ rows [
    "\u00a0‘’£€₯¦§¨©ͺ«¬\u00ad\ufffd―",
    "°±²³΄΅Ά·ΈΉΊ»Ό½ΎΏ",
    "ΐΑΒΓΔΕΖΗΘΙΚΛΜΝΞΟ",
    "ΠΡ\ufffdΣΤΥΦΧΨΩΪΫάέήί",
    "ΰαβγδεζηθικλμνξο",
    "πρςστυφχψωϊϋόύώ\ufffd"]
  | .iso8859x8 | .iso8859x8i => upperControls ++ rows [
    "\u00a0\ufffd¢£¤¥¦§¨©×«¬\u00ad®¯",
    "°±²³´µ¶·¸¹÷»¼½¾\ufffd",
    "\ufffd\ufffd\ufffd\ufffd\ufffd\ufffd\ufffd\ufffd",
    "\ufffd\ufffd\ufffd\ufffd\ufffd\ufffd\ufffd\ufffd",
    "\ufffd\ufffd\ufffd\ufffd\ufffd\ufffd\ufffd\ufffd",
    "\ufffd\ufffd\ufffd\ufffd\ufffd\ufffd\ufffd‗",
    "\u05d0\u05d1\u05d2\u05d3\u05d4\u05d5\u05d6\u05d7",
    "\u05d8\u05d9\u05da\u05db\u05dc\u05dd\u05de\u05df",
    "\u05e0\u05e1\u05e2\u05e3\u05e4\u05e5\u05e6\u05e7",
    "\u05e8\u05e9\u05ea\ufffd\ufffd\u200e\u200f\ufffd"]
  | .iso8859x10 => upperControls ++ rows [
    "\u00a0ĄĒĢĪĨĶ§ĻĐŠŦŽ\u00adŪŊ",
    "°ąēģīĩķ·ļđšŧž―ūŋ",
    "ĀÁÂÃÄÅÆĮČÉĘËĖÍÎÏ",
    "ÐŅŌÓÔÕÖŨØŲÚÛÜÝÞß",
    "āáâãäåæįčéęëėíîï",
    "ðņōóôõöũøųúûüýþĸ"]
  | .iso8859x13 => upperControls ++ rows [
    "\u00a0”¢£¤„¦§Ø©Ŗ«¬\u00ad®Æ",
    "°±²³“µ¶·ø¹ŗ»¼½¾æ",
    "ĄĮĀĆÄÅĘĒČÉŹĖĢĶĪĻ",
    "ŠŃŅÓŌÕÖ×ŲŁŚŪÜŻŽß",
    "ąįāćäåęēčéźėģķīļ",
    "šńņóōõö÷ųłśūüżž’"]
  | .iso8859x14 => upperControls ++ rows [
    "\u00a0Ḃḃ£ĊċḊ§Ẁ©ẂḋỲ\u00ad®Ÿ",
    "ḞḟĠġṀṁ¶ṖẁṗẃṠỳẄẅṡ",
    "ÀÁÂÃÄÅÆÇÈÉÊËÌÍÎÏ",
    "ŴÑÒÓÔÕÖṪØÙÚÛÜÝŶß",
    "àáâãäåæçèéêëìíîï",
    "ŵñòóôõöṫøùúûüýŷÿ"]
  | .iso8859x15 => upperControls ++ rows [
    "\u00a0¡¢£€¥Š§š©ª«¬\u00ad®¯",
    "°±²³Žµ¶·ž¹º»ŒœŸ¿",
    "ÀÁÂÃÄÅÆÇÈÉÊËÌÍÎÏ",
    "ÐÑÒÓÔÕÖ×ØÙÚÛÜÝÞß",
    "àáâãäåæçèéêëìíîï",
    "ðñòóôõö÷øùúûüýþÿ"]
  | .iso8859x16 => upperControls ++ rows [
    "\u00a0ĄąŁ€„Š§š©Ș«Ź\u00adźŻ",
    "°±ČłŽ”¶·žčș»ŒœŸż",
    "ÀÁÂĂÄĆÆÇÈÉÊËÌÍÎÏ",
    "ĐŃÒÓÔŐÖŚŰÙÚÛÜĘȚß",
    "àáâăäćæçèéêëìíîï",
    "đńòóôőöśűùúûüęțÿ"]
  | .koi8r => rows [
    "─│┌┐└┘├┤┬┴┼▀▄█▌▐",
    "░▒▓⌠■∙√≈≤≥\u00a0⌡°²·÷",
    "═║╒ё╓╔╕╖╗╘╙╚╛╜╝╞",
    "╟╠╡Ё╢╣╤╥╦╧╨╩╪╫╬©",
    "юабцдефгхийклмно",
    "пярстужвьызшэщчъ",
    "ЮАБЦДЕФГХИЙКЛМНО",
    "ПЯРСТУЖВЬЫЗШЭЩЧЪ"]
  | .koi8u => rows [
    "─│┌┐└┘├┤┬┴┼▀▄█▌▐",
    "░▒▓⌠■∙√≈≤≥\u00a0⌡°²·÷",
    "═║╒ёє╔ії╗╘╙╚╛ґў╞",
    "╟╠╡ЁЄ╣ІЇ╦╧╨╩╪ҐЎ©",
    "юабцдефгхийклмно",
    "пярстужвьызшэщчъ",
    "ЮАБЦДЕФГХИЙКЛМНО",
    "ПЯРСТУЖВЬЫЗШЭЩЧЪ"]
  | .macRoman => rows [
    "ÄÅÇÉÑÖÜáàâäãåçéè",
    "êëíìîïñóòôöõúùûü",
    "†°¢£§•¶ß®©™´¨≠ÆØ",
    "∞±≤≥¥µ∂∑∏π∫ªºΩæø",
    "¿¡¬√ƒ≈∆«»…\u00a0ÀÃÕŒœ",
    "–—“”‘’÷◊ÿŸ⁄€‹›ﬁﬂ",
    "‡·‚„‰ÂÊÁËÈÍÎÏÌÓÔ",
    "\uf8ffÒÚÛÙıˆ˜¯˘˙˚¸˝˛ˇ"]
  | .macCyrillic => rows [
    "АБВГДЕЖЗИЙКЛМНОП",
    "РСТУФХЦЧШЩЪЫЬЭЮЯ",
    "†°Ґ£§•¶І®©™Ђђ≠Ѓѓ",
    "∞±≤≥іµґЈЄєЇїЉљЊњ",
    "јЅ¬√ƒ≈∆«»…\u00a0ЋћЌќѕ",
    "–—“”‘’÷„ЎўЏџ№Ёёя",
    "абвгдежзийклмноп",
    "рстуфхцчшщъыьэю€"]
  | .windows874 => rows [
    "€\u0081\u0082\u0083\u0084…\u0086\u0087\u0088\u0089\u008a\u008b\u008c\u008d\u008e\u008f",
    "\u0090‘’“”•–—\u0098\u0099\u009a\u009b\u009c\u009d\u009e\u009f",
    "\u00a0กขฃคฅฆงจฉชซฌญฎฏ",
    "ฐฑฒณดตถทธนบปผฝพฟ",
    "ภมยรฤลฦวศษสหฬอฮฯ",
    "ะ\u0e31าำ\u0e34\u0e35\u0e36\u0e37\u0e38\u0e39\u0e3a\ufffd\ufffd\ufffd\ufffd฿",
    "เแโใไๅๆ\u0e47\u0e48\u0e49\u0e4a\u0e4b\u0e4c\u0e4d\u0e4e๏",
    "๐๑๒๓๔๕๖๗๘๙๚๛\ufffd\ufffd\ufffd\ufffd"]
  | .windows1250 => rows [
    "€\u0081‚\u0083„…†‡\u0088‰Š‹ŚŤŽŹ",
    "\u0090‘’“”•–—\u0098™š›śťžź",
    "\u00a0ˇ˘Ł¤Ą¦§¨©Ş«¬\u00ad®Ż",
    "°±˛ł´µ¶·¸ąş»Ľ˝ľż",
    "ŔÁÂĂÄĹĆÇČÉĘËĚÍÎĎ",
    "ĐŃŇÓÔŐÖ×ŘŮÚŰÜÝŢß",
    "ŕáâăäĺćçčéęëěíîď",
    "đńňóôőö÷řůúűüýţ˙"]
  | .windows1251 => rows [
    "ЂЃ‚ѓ„…†‡€‰Љ‹ЊЌЋЏ",
    "ђ‘’“”•–—\u0098™љ›њќћџ",
    "\u00a0ЎўЈ¤Ґ¦§Ё©Є«¬\u00ad®Ї",
    "°±Ііґµ¶·ё№є»јЅѕї",
    "АБВГДЕЖЗИЙКЛМНОП",
    "РСТУФХЦЧШЩЪЫЬЭЮЯ",
    "абвгдежзийклмноп",
    "рстуфхцчшщъыьэюя"]
  | .windows1252 => rows [
    "€\u0081‚ƒ„…†‡ˆ‰Š‹Œ\u008dŽ\u008f",
    "\u0090‘’“”•–—˜™š›œ\u009džŸ",
    "\u00a0¡¢£¤¥¦§¨©ª«¬\u00ad®¯",
    "°±²³´µ¶·¸¹º»¼½¾¿",
    "ÀÁÂÃÄÅÆÇÈÉÊËÌÍÎÏ",
    "ÐÑÒÓÔÕÖ×ØÙÚÛÜÝÞß",
    "àáâãäåæçèéêëìíîï",
    "ðñòóôõö÷øùúûüýþÿ"]
  | .windows1253 => rows [
    "€\u0081‚ƒ„…†‡\u0088‰\u008a‹\u008c\u008d\u008e\u008f",
    "\u0090‘’“”•–—\u0098™\u009a›\u009c\u009d\u009e\u009f",
    "\u00a0΅Ά£¤¥¦§¨©\ufffd«¬\u00ad®―",
    "°±²³΄µ¶·ΈΉΊ»Ό½ΎΏ",
    "ΐΑΒΓΔΕΖΗΘΙΚΛΜΝΞΟ",
    "ΠΡ\ufffdΣΤΥΦΧΨΩΪΫάέήί",
    "ΰαβγδεζηθικλμνξο",
    "πρςστυφχψωϊϋόύώ\ufffd"]
  | .windows1254 => rows [
    "€\u0081‚ƒ„…†‡ˆ‰Š‹Œ\u008d\u008e\u008f",
    "\u0090‘’“”•–—˜™š›œ\u009d\u009eŸ",
    "\u00a0¡¢£¤¥¦§¨©ª«¬\u00ad®¯",
    "°±²³´µ¶·¸¹º»¼½¾¿",
    "ÀÁÂÃÄÅÆÇÈÉÊËÌÍÎÏ",
    "ĞÑÒÓÔÕÖ×ØÙÚÛÜİŞß",
    "àáâãäåæçèéêëìíîï",
    "ğñòóôõö÷øùúûüışÿ"]
  | .windows1255 => rows [
    "€\u0081‚ƒ„…†‡ˆ‰\u008a‹\u008c\u008d\u008e\u008f",
    "\u0090‘’“”•–—˜™\u009a›\u009c\u009d\u009e\u009f",
    "\u00a0¡¢£₪¥¦§¨©×«¬\u00ad®¯",
    "°±²³´µ¶·¸¹÷»¼½¾¿",
    "\u05b0\u05b1\u05b2\u05b3\u05b4\u05b5\u05b6\u05b7",
    "\u05b8\u05b9\u05ba\u05bb\u05bc\u05bd\u05be\u05bf",
    "\u05c0\u05c1\u05c2\u05c3\u05f0\u05f1\u05f2\u05f3",
    "\u05f4\ufffd\ufffd\ufffd\ufffd\ufffd\ufffd\ufffd",
    "\u05d0\u05d1\u05d2\u05d3\u05d4\u05d5\u05d6\u05d7",
    "\u05d8\u05d9\u05da\u05db\u05dc\u05dd\u05de\u05df",
    "\u05e0\u05e1\u05e2\u05e3\u05e4\u05e5\u05e6\u05e7",
    "\u05e8\u05e9\u05ea\ufffd\ufffd\u200e\u200f\ufffd"]
  | .windows1256 => rows [
    "€\u067e‚ƒ„…†‡ˆ‰\u0679‹Œ\u0686\u0698\u0688",
    "\u06af‘’“”•–—\u06a9™\u0691›œ\u200c\u200d\u06ba",
    "\u00a0،¢£¤¥¦§¨©\u06be«¬\u00ad®¯",
    "°±²³´µ¶·¸¹\u061b»¼½¾\u061f",
    "\u06c1\u0621\u0622\u0623\u0624\u0625\u0626\u0627",
    "\u0628\u0629\u062a\u062b\u062c\u062d\u062e\u062f",
    "\u0630\u0631\u0632\u0633\u0634\u0635\u0636×",
    "\u0637\u0638\u0639\u063a\u0640\u0641\u0642\u0643",
    "à\u0644â\u0645\u0646\u0647\u0648çèéêë\u0649\u064aîï",
    "\u064b\u064c\u064d\u064eô\u064f\u0650÷\u0651ù\u0652ûü\u200e\u200f\u06d2"]
  | .windows1257 => rows [
    "€\u0081‚\u0083„…†‡\u0088‰\u008a‹\u008c¨ˇ¸",
    "\u0090‘’“”•–—\u0098™\u009a›\u009c¯˛\u009f",
    "\u00a0\ufffd¢£¤\ufffd¦§Ø©Ŗ«¬\u00ad®Æ",
    "°±²³´µ¶·ø¹ŗ»¼½¾æ",
    "ĄĮĀĆÄÅĘĒČÉŹĖĢĶĪĻ",
    "ŠŃŅÓŌÕÖ×ŲŁŚŪÜŻŽß",
    "ąįāćäåęēčéźėģķīļ",
    "šńņóōõö÷ųłśūüżž˙"]
  | .windows1258 => rows [
    "€\u0081‚ƒ„…†‡ˆ‰\u008a‹Œ\u008d\u008e\u008f",
    "\u0090‘’“”•–—˜™\u009a›œ\u009d\u009eŸ",
    "\u00a0¡¢£¤¥¦§¨©ª«¬\u00ad®¯",
    "°±²³´µ¶·¸¹º»¼½¾¿",
    "ÀÁÂĂÄÅÆÇÈÉÊË\u0300ÍÎÏ",
    "ĐÑ\u0309ÓÔƠÖ×ØÙÚÛÜƯ\u0303ß",
    "àáâăäåæçèéêë\u0301íîï",
    "đñ\u0323óôơö÷øùúûüư₫ÿ"]

/-- The character of a byte. -/
def decodeByte (page : CodePage) (b : UInt8) : Char :=
  if b < 128 then Char.ofNat b.toNat else page.upperHalf.getD (b.toNat - 128) '\ufffd'

end CodePage

end FluentMerge.Charset
