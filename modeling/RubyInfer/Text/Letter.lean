import RubyInfer.Text.Run

/-!
Upper and lower case of letters.
-/

namespace RubyInfer.Letter

def upperRuns : List Run :=
  [(65, 26, 1), (101, 23, 1), (1, 7, 1), (33, 28, 2), (2, 8, 2), (2, 24, 2), (0, 3, 2), (3, 2, 1),
   (1, 2, 2), (0, 2, 2), (0, 2, 1), (2, 4, 1), (1, 2, 1), (1, 3, 1), (3, 2, 1), (1, 2, 1),
   (1, 3, 2), (0, 2, 2), (2, 2, 2), (0, 2, 2), (0, 2, 1), (1, 2, 2), (0, 1, 1), (3, 1, 1),
   (7, 1, 1), (2, 1, 1), (2, 1, 1), (2, 8, 2), (2, 9, 2), (2, 1, 1), (2, 2, 2), (0, 2, 1),
   (1, 29, 2), (7, 2, 1), (1, 2, 1), (2, 2, 2), (0, 3, 1), (1, 4, 2), (289, 2, 2), (3, 1, 1),
   (8, 1, 1), (6, 2, 2), (0, 2, 1), (1, 2, 2), (0, 2, 2), (0, 16, 1), (1, 9, 1), (35, 1, 1),
   (2, 3, 1), (3, 12, 2), (5, 1, 1), (2, 2, 2), (0, 1, 1), (2, 51, 1), (48, 17, 2), (9, 28, 2),
   (0, 7, 2), (2, 48, 2), (2, 38, 1), (2889, 38, 1), (1, 1, 1), (5, 1, 1), (722, 86, 1),
   (2195, 1, 1), (6, 43, 1), (2, 3, 1), (320, 75, 2), (9, 49, 2), (9, 8, 1), (8, 6, 1), (10, 8, 1),
   (8, 8, 1), (8, 6, 1), (11, 4, 2), (8, 8, 1), (72, 4, 1), (12, 4, 1), (12, 4, 1), (12, 5, 1),
   (11, 4, 1), (262, 1, 1), (4, 1, 1), (3, 3, 1), (2, 3, 1), (2, 1, 1), (3, 5, 1), (6, 4, 2),
   (0, 3, 1), (2, 4, 1), (10, 2, 1), (5, 1, 1), (26, 16, 1), (19, 1, 1), (818, 26, 1),
   (1840, 48, 1), (48, 2, 2), (0, 2, 1), (2, 4, 2), (0, 3, 1), (1, 1, 1), (2, 1, 1), (8, 3, 1),
   (1, 49, 2), (8, 2, 2), (4, 1, 1), (31053, 23, 2), (19, 14, 2), (135, 7, 2), (3, 31, 2),
   (10, 3, 2), (0, 5, 2), (4, 2, 2), (2, 2, 2), (3, 11, 2), (0, 4, 1), (1, 5, 1), (1, 8, 2),
   (0, 3, 1), (1, 2, 2), (0, 9, 2), (24, 1, 1), (22315, 26, 1), (1221, 40, 1), (136, 36, 1),
   (156, 11, 1), (1, 15, 1), (1, 7, 1), (1, 2, 1), (1770, 51, 1), (157, 22, 1), (2874, 32, 1),
   (21888, 32, 1), (64, 25, 1), (25927, 26, 1), (26, 26, 1), (26, 26, 1), (26, 2, 2), (0, 1, 1),
   (2, 1, 1), (2, 2, 1), (2, 4, 1), (1, 8, 1), (26, 26, 1), (26, 2, 1), (1, 4, 1), (2, 8, 1),
   (1, 7, 1), (27, 2, 1), (1, 4, 1), (1, 5, 1), (1, 1, 1), (3, 7, 1), (27, 26, 1), (26, 26, 1),
   (26, 26, 1), (26, 26, 1), (26, 26, 1), (26, 26, 1), (30, 25, 1), (33, 25, 1), (33, 25, 1),
   (33, 25, 1), (33, 25, 1), (33, 1, 1), (4405, 34, 1), (2062, 26, 1), (6, 26, 1), (6, 26, 1)]

def lowerRuns : List Run :=
  [(97, 26, 1), (47, 1, 1), (10, 1, 1), (4, 1, 1), (36, 24, 1), (1, 8, 1), (1, 28, 2), (0, 9, 2),
   (0, 24, 2), (2, 3, 2), (0, 2, 1), (2, 2, 2), (2, 1, 1), (3, 2, 1), (4, 1, 1), (2, 1, 1),
   (3, 3, 1), (2, 1, 1), (2, 3, 2), (2, 2, 2), (0, 2, 2), (2, 1, 1), (3, 2, 2), (2, 2, 1),
   (2, 3, 1), (6, 1, 1), (2, 1, 1), (2, 9, 2), (0, 10, 2), (0, 1, 1), (2, 2, 2), (3, 30, 2),
   (0, 6, 1), (2, 1, 1), (2, 2, 1), (1, 1, 1), (4, 5, 2), (0, 68, 1), (2, 35, 1), (7, 2, 1),
   (30, 5, 1), (96, 1, 1), (43, 2, 2), (3, 1, 1), (2, 4, 1), (18, 1, 1), (27, 35, 1), (1, 2, 1),
   (3, 3, 1), (1, 12, 2), (0, 4, 1), (1, 1, 1), (2, 1, 1), (2, 2, 1), (51, 48, 1), (1, 17, 2),
   (9, 27, 2), (2, 7, 2), (0, 49, 2), (48, 41, 1), (2887, 43, 1), (1, 4, 1), (760, 6, 1),
   (2178, 9, 1), (1, 1, 1), (117, 192, 1), (65, 75, 2), (0, 8, 1), (1, 49, 2), (0, 8, 1), (8, 6, 1),
   (10, 8, 1), (8, 8, 1), (8, 6, 1), (10, 8, 1), (8, 8, 1), (8, 14, 1), (2, 8, 1), (8, 8, 1),
   (8, 8, 1), (8, 5, 1), (1, 2, 1), (6, 1, 1), (3, 3, 1), (1, 2, 1), (8, 4, 1), (2, 2, 1),
   (8, 8, 1), (10, 3, 1), (1, 2, 1), (121, 1, 1), (13, 1, 1), (16, 13, 1), (109, 1, 1), (3, 2, 1),
   (3, 1, 1), (27, 1, 1), (4, 1, 1), (4, 1, 1), (2, 2, 1), (8, 4, 1), (4, 1, 1), (33, 16, 1),
   (4, 1, 1), (843, 26, 1), (1862, 48, 1), (1, 1, 1), (3, 2, 1), (1, 3, 2), (4, 2, 2), (0, 2, 2),
   (0, 7, 1), (3, 50, 2), (0, 1, 1), (7, 2, 2), (4, 1, 1), (12, 38, 1), (1, 1, 1), (5, 1, 1),
   (30995, 23, 2), (19, 14, 2), (0, 2, 1), (133, 7, 2), (0, 2, 1), (1, 31, 2), (0, 9, 1), (1, 2, 2),
   (2, 5, 2), (4, 2, 2), (2, 2, 2), (0, 2, 1), (1, 10, 2), (5, 1, 1), (5, 8, 2), (4, 2, 2),
   (2, 8, 2), (21, 4, 1), (1, 2, 2), (0, 2, 1), (821, 43, 1), (1, 14, 1), (6, 80, 1), (20288, 7, 1),
   (12, 5, 1), (1065, 26, 1), (1229, 40, 1), (136, 36, 1), (155, 11, 1), (1, 15, 1), (1, 7, 1),
   (1, 2, 1), (451, 1, 1), (2, 3, 1), (1, 42, 1), (1, 9, 1), (1285, 51, 1), (125, 22, 1),
   (2874, 32, 1), (21888, 32, 1), (59, 25, 1), (25926, 26, 1), (26, 7, 1), (1, 18, 1), (26, 26, 1),
   (26, 4, 1), (1, 2, 2), (0, 6, 1), (1, 11, 1), (26, 26, 1), (26, 26, 1), (26, 26, 1), (26, 26, 1),
   (26, 26, 1), (26, 26, 1), (26, 26, 1), (26, 26, 1), (26, 28, 1), (28, 25, 1), (1, 6, 1),
   (26, 25, 1), (1, 6, 1), (26, 25, 1), (1, 6, 1), (26, 25, 1), (1, 6, 1), (26, 25, 1), (1, 6, 1),
   (1, 1, 1), (1844, 10, 1), (1, 20, 1), (6, 6, 1), (261, 62, 1), (2228, 34, 1)]

def smallRuns : List Run :=
  [(65, 26, 1), (101, 23, 1), (1, 7, 1), (33, 24, 2), (3, 3, 2), (2, 8, 2), (2, 23, 2), (1, 1, 1),
   (0, 3, 2), (3, 1, 1), (0, 2, 2), (1, 1, 1), (0, 1, 1), (1, 2, 1), (0, 1, 1), (2, 1, 1),
   (0, 1, 1), (0, 1, 1), (0, 1, 1), (1, 1, 1), (0, 1, 1), (1, 1, 1), (0, 1, 1), (0, 1, 1),
   (3, 1, 1), (0, 1, 1), (1, 1, 1), (0, 3, 2), (1, 1, 1), (0, 1, 1), (1, 1, 1), (2, 1, 1),
   (1, 1, 1), (0, 1, 1), (1, 2, 1), (0, 2, 2), (1, 1, 1), (0, 1, 1), (3, 1, 1), (7, 1, 1),
   (0, 1, 1), (1, 1, 1), (0, 1, 1), (1, 1, 1), (0, 9, 2), (2, 9, 2), (2, 1, 1), (0, 2, 2),
   (1, 1, 1), (0, 1, 1), (0, 20, 2), (1, 1, 1), (1, 9, 2), (7, 1, 1), (0, 1, 1), (1, 1, 1),
   (0, 1, 1), (2, 1, 1), (1, 1, 1), (0, 1, 1), (0, 1, 1), (0, 5, 2), (289, 2, 2), (3, 1, 1),
   (8, 1, 1), (6, 1, 1), (1, 3, 1), (1, 1, 1), (1, 2, 1), (1, 17, 1), (1, 9, 1), (35, 1, 1),
   (8, 12, 2), (5, 1, 1), (2, 1, 1), (1, 1, 1), (0, 1, 1), (2, 3, 1), (0, 16, 1), (0, 32, 1),
   (48, 17, 2), (9, 27, 2), (1, 1, 1), (0, 7, 2), (2, 48, 2), (2, 38, 1), (2889, 38, 1), (1, 1, 1),
   (5, 1, 1), (722, 80, 1), (0, 6, 1), (2195, 1, 1), (6, 43, 1), (2, 3, 1), (320, 75, 2), (9, 1, 1),
   (1, 48, 2), (9, 8, 1), (8, 6, 1), (10, 8, 1), (8, 8, 1), (8, 6, 1), (11, 4, 2), (8, 8, 1),
   (24, 8, 1), (8, 8, 1), (8, 8, 1), (8, 2, 1), (0, 2, 1), (0, 1, 1), (11, 4, 1), (0, 1, 1),
   (11, 2, 1), (0, 2, 1), (12, 2, 1), (0, 2, 1), (0, 1, 1), (11, 2, 1), (0, 2, 1), (0, 1, 1),
   (297, 1, 1), (3, 1, 1), (0, 1, 1), (6, 1, 1), (45, 16, 1), (19, 1, 1), (818, 26, 1),
   (1840, 48, 1), (48, 1, 1), (1, 1, 1), (0, 1, 1), (0, 1, 1), (2, 3, 2), (1, 1, 1), (0, 1, 1),
   (0, 1, 1), (0, 1, 1), (1, 1, 1), (2, 1, 1), (8, 2, 1), (0, 50, 2), (8, 2, 2), (4, 1, 1),
   (31053, 23, 2), (19, 14, 2), (135, 7, 2), (3, 31, 2), (10, 2, 2), (1, 1, 1), (0, 5, 2),
   (4, 1, 1), (1, 1, 1), (2, 2, 2), (3, 10, 2), (1, 1, 1), (0, 1, 1), (0, 1, 1), (0, 1, 1),
   (0, 1, 1), (1, 1, 1), (0, 1, 1), (0, 1, 1), (0, 1, 1), (0, 8, 2), (1, 1, 1), (0, 1, 1),
   (0, 1, 1), (0, 2, 2), (1, 1, 1), (0, 8, 2), (1, 1, 1), (24, 1, 1), (22315, 26, 1), (1221, 40, 1),
   (136, 36, 1), (156, 11, 1), (1, 15, 1), (1, 7, 1), (1, 2, 1), (1770, 51, 1), (157, 22, 1),
   (2874, 32, 1), (21888, 32, 1), (64, 25, 1), (31303, 34, 1)]

/-- For each of the runs before, how far on the small letters are. -/
def smallDistances : List Int :=
  [32, 32, 32, 1, 1, 1, 1, -121, 1, 210, 1, 206, 1, 205, 1, 79, 202, 203, 1, 205, 207, 211, 209, 1,
   211, 213, 214, 1, 218, 1, 218, 1, 218, 1, 217, 1, 219, 1, 1, 2, 1, 2, 1, 2, 1, 1, 2, 1, -97, -56,
   1, -130, 1, 10795, 1, -163, 10792, 1, -195, 69, 71, 1, 1, 1, 116, 38, 37, 64, 63, 32, 32, 8, 1,
   -60, 1, -7, 1, -130, 80, 32, 1, 1, 15, 1, 1, 48, 7264, 7264, 7264, 38864, 8, 1, -3008, -3008, 1,
   -7615, 1, -8, -8, -8, -8, -8, -8, -8, -8, -8, -8, -8, -74, -9, -86, -9, -8, -100, -8, -112, -7,
   -128, -126, -9, -7517, -8383, -8262, 28, 16, 1, 26, 48, 1, -10743, -3814, -10727, 1, -10780,
   -10749, -10783, -10782, 1, 1, -10815, 1, 1, 1, 1, 1, 1, 1, 1, -35332, 1, 1, -42280, 1, 1, -42308,
   -42319, -42315, -42305, -42308, -42258, -42282, -42261, 928, 1, -48, -42307, -35384, 1, -42343,
   1, -42561, 1, 32, 40, 40, 39, 39, 39, 39, 64, 32, 32, 32, 27, 34]

def isUpper (c : Char) : Bool := (Run.index? upperRuns c.toNat).isSome

def isLower (c : Char) : Bool := (Run.index? lowerRuns c.toNat).isSome

def isDigit (c : Char) : Bool := '0' ≤ c ∧ c ≤ '9'

/-- The small letter. The dotted capital I has none of its own, and its dot is kept as a mark of its
own. -/
def toLower (c : Char) : List Char :=
  if c.toNat = 0x130 then ['i', '\u0307']
  else
    match (Run.index? smallRuns c.toNat).bind (smallDistances[·]?) with
    | some distance => [Char.ofNat ((c.toNat : Int) + distance).toNat]
    | none => [c]

end RubyInfer.Letter
