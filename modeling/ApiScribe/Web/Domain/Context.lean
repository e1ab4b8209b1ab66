import ApiScribe.Text.Character
import ApiScribe.Web.Domain.Flaw
import ApiScribe.Web.Domain.Letters
import ApiScribe.Web.Domain.Mark

/-! Characters that a name may hold in some places only: joiners between letters that join, dots and
signs beside letters of their script, and digits that are not mixed with those of another kind. -/
namespace ApiScribe
namespace Domain

open Text (Range inRanges)

/-- The letters that join the letter before them and the one after. -/
def dualRanges : List Range :=
  [(1568, 1568), (1574, 1574), (1576, 1576), (1578, 1582), (1587, 1607), (1609, 1610), (1646, 1647),
   (1657, 1671), (1690, 1727), (1729, 1730), (1740, 1740), (1742, 1742), (1744, 1745), (1786, 1788),
   (1791, 1791), (1810, 1812), (1818, 1821), (1823, 1831), (1833, 1833), (1835, 1835), (1837, 1838),
   (1870, 1880), (1884, 1898), (1901, 1904), (1906, 1906), (1909, 1911), (1914, 1919), (1994, 2026),
   (2113, 2117), (2120, 2120), (2122, 2131), (2133, 2133), (2144, 2144), (2146, 2149), (2152, 2152),
   (2182, 2182), (2185, 2189), (2208, 2217), (2223, 2224), (2227, 2232), (2234, 2248), (6176, 6264),
   (6279, 6312), (6314, 6314), (43072, 43121), (68288, 68292), (68307, 68310), (68312, 68316),
   (68318, 68320), (68480, 68480), (68482, 68482), (68486, 68488), (68490, 68491), (68493, 68493),
   (68496, 68496), (68865, 68897), (68899, 68899), (69424, 69426), (69428, 69444), (69488, 69491),
   (69494, 69505), (69552, 69552), (69554, 69555), (69560, 69560), (69563, 69564), (69566, 69567),
   (69569, 69569), (69572, 69572), (125218, 125251)]

/-- The letters that join the letter after them only. -/
def forwardRanges : List Range :=
  [(43122, 43122), (68301, 68301), (68311, 68311), (68864, 68864)]

/-- The letters that join the letter before them only. -/
def backwardRanges : List Range :=
  [(1570, 1573), (1575, 1575), (1577, 1577), (1583, 1586), (1608, 1608), (1649, 1651), (1672, 1689),
   (1728, 1728), (1731, 1739), (1741, 1741), (1743, 1743), (1746, 1749), (1774, 1775), (1808, 1808),
   (1813, 1817), (1822, 1822), (1832, 1832), (1834, 1834), (1836, 1836), (1839, 1839), (1869, 1869),
   (1881, 1883), (1899, 1900), (1905, 1905), (1907, 1908), (1912, 1913), (2112, 2112), (2118, 2119),
   (2121, 2121), (2132, 2132), (2134, 2136), (2151, 2151), (2153, 2178), (2190, 2190), (2218, 2220),
   (2222, 2222), (2225, 2226), (2233, 2233), (68293, 68293), (68295, 68298), (68302, 68306), (68317,
   68317), (68321, 68321), (68324, 68324), (68481, 68481), (68483, 68485), (68489, 68489), (68492,
   68492), (68494, 68495), (68497, 68497), (68898, 68898), (69427, 69427), (69492, 69493), (69556,
   69558), (69561, 69562), (69565, 69565), (69570, 69571)]

/-- The Greek letters. -/
def greekRanges : List Range :=
  [(880, 883), (885, 887), (890, 893), (895, 895), (900, 900), (902, 902), (904, 906), (908, 908),
   (910, 929), (931, 993), (1008, 1023), (7462, 7466), (7517, 7521), (7526, 7530), (7615, 7615),
   (7936, 7957), (7960, 7965), (7968, 8005), (8008, 8013), (8016, 8023), (8025, 8025), (8027, 8027),
   (8029, 8029), (8031, 8061), (8064, 8116), (8118, 8132), (8134, 8147), (8150, 8155), (8157, 8175),
   (8178, 8180), (8182, 8190), (8486, 8486), (43877, 43877), (65856, 65934), (65952, 65952),
   (119296, 119365)]

/-- The Hebrew letters. -/
def hebrewRanges : List Range :=
  [(1425, 1479), (1488, 1514), (1519, 1524), (64285, 64310), (64312, 64316), (64318, 64318), (64320,
   64321), (64323, 64324), (64326, 64335)]

/-- The Japanese syllables and the Chinese characters. -/
def kanaRanges : List Range :=
  [(11904, 11929), (11931, 12019), (12032, 12245), (12293, 12293), (12295, 12295), (12321, 12329),
   (12344, 12347), (12353, 12438), (12445, 12447), (12449, 12538), (12541, 12543), (12784, 12799),
   (13008, 13054), (13056, 13143), (13312, 19903), (19968, 40959), (63744, 64109), (64112, 64217),
   (65382, 65391), (65393, 65437), (94178, 94179), (94192, 94198), (110576, 110579), (110581,
   110587), (110589, 110590), (110592, 110882), (110898, 110898), (110928, 110930), (110933,
   110933), (110948, 110951), (127488, 127488), (131072, 173791), (173824, 178205), (178208,
   183981), (183984, 191456), (191472, 192093), (194560, 195101), (196608, 201546), (201552, 210041)]

/-- Whether the letters before a joiner, the nearest first, and those after it join there. -/
def joins (before after : List Char) : Bool :=
  (before.find? (!isBareMark ·)).any (fun c => inRanges dualRanges c || inRanges forwardRanges c)
    && (after.find? (!isBareMark ·)).any fun c =>
        inRanges dualRanges c || inRanges backwardRanges c

/-- The digits of the first of the two Arabic kinds. -/
def isEasternDigit (c : Char) : Bool := '\u0660' ≤ c && c ≤ '\u0669'

/-- The digits of the second of the two Arabic kinds. -/
def isPersianDigit (c : Char) : Bool := '\u06f0' ≤ c && c ≤ '\u06f9'

/-- Whether a character may stand between the characters before it, the nearest first, and those
after it. -/
def fits (before : List Char) (c : Char) (after : List Char) : Bool :=
  let isAfterJoiner := before.head?.any fun d => rank d = joinerRank
  let all := before ++ after
  if c = '\u200c' then isAfterJoiner || joins before after
  else if c = '\u200d' then isAfterJoiner
  else if c = '\xb7' then before.head? = some 'l' && after.head? = some 'l'
  else if c = '\u0375' then after.head?.any (inRanges greekRanges ·)
  else if c = '\u05f3' || c = '\u05f4' then before.head?.any (inRanges hebrewRanges ·)
  else if c = '\u30fb' then all.any fun d => d ≠ '\u30fb' && inRanges kanaRanges d
  else if isEasternDigit c then !all.any isPersianDigit
  else if isPersianDigit c then !all.any isEasternDigit
  else false

/-- The joiners. -/
def isJoiner (c : Char) : Bool := c == '\u200c' || c == '\u200d'

/-- The characters that a name may hold beside some others only. -/
def isDependent (c : Char) : Bool :=
  ['\xb7', '\u0375', '\u05f3', '\u05f4', '\u30fb'].contains c || isEasternDigit c || isPersianDigit c

/-- The first flaw of the characters of a label from a place on; `before` holds the characters in
front, the nearest first. -/
def characterFlaw? (label before : List Char) : List Char → Option Flaw
  | [] => none
  | c :: cs =>
    if isLetter c || fits before c cs then characterFlaw? label (c :: before) cs
    else
      let place := before.length + 1
      if isJoiner c then some (.joiner c place label)
      else if isDependent c then some (.lonely c place label)
      else some (.stranger c place label)

end Domain
end ApiScribe
