/-!
# The filter banks of the rate converter

`FixedRC.c`: the factors of every mode and the coefficients of the filters, branch after
branch.
-/

namespace Slmodem
namespace Core

def fixedRcUpFact : List Nat :=
  [4, 1, 6, 5, 6, 1, 5, 1, 4, 1, 24, 5, 5, 4, 3, 2, 10, 3, 10, 9, 0]

def fixedRcDownFact : List Nat :=
  [1, 4, 5, 6, 1, 6, 1, 5, 1, 4, 5, 24, 4, 5, 2, 3, 3, 10, 9, 10, 0]

def rc80to96filter : List Int := List.flatten
  [[-1, 0, 4, -12, 27, -54, 94, -152, 227, -319, 426, -543, 663, -777, 878, -957, 1007, 15358, 1007,
      -957, 878, -777, 663, -543, 426, -319, 227, -152, 94, -54, 27, -12, 4, 0, -1, 2],
    [2, -5, 11, -22, 40, -68, 106, -154, 209, -267, 319, -355, 357, -302, 145, 224, -1279, 14744,
      3941, -2122, 1491, -1113, 836, -615, 437, -297, 189, -110, 57, -24, 5, 3, -6, 6, -5, 4],
    [4, -8, 14, -25, 42, -65, 92, -121, 146, -160, 150, -104, 0, 192, -532, 1172, -2714, 12992, 7192,
      -2980, 1814, -1209, 817, -541, 340, -197, 99, -36, 0, 17, -22, 20, -15, 11, -7, 5],
    [5, -8, 14, -23, 34, -47, 59, -65, 57, -27, -37, 147, -322, 592, -1011, 1722, -3249, 10351,
      10351, -3249, 1722, -1011, 592, -322, 147, -37, -27, 57, -65, 59, -47, 34, -23, 14, -8, 5],
    [5, -7, 11, -15, 20, -22, 17, 0, -36, 99, -197, 340, -541, 817, -1209, 1814, -2980, 7192, 12992,
      -2714, 1172, -532, 192, 0, -104, 150, -160, 146, -121, 92, -65, 42, -25, 14, -8, 4],
    [4, -5, 6, -6, 3, 5, -24, 57, -110, 189, -297, 437, -615, 836, -1113, 1491, -2122, 3941, 14744,
      -1279, 224, 145, -302, 357, -355, 319, -267, 209, -154, 106, -68, 40, -22, 11, -5, 2]]

def rc96to80filter : List Int := List.flatten
  [[-4, -4, 23, -49, 65, -35, -68, 233, -383, 386, -106, -522, 1427, -2396, 3143, 12959, 3143,
      -2396, 1427, -522, -106, 386, -383, 233, -68, -35, 65, -49, 23, -4, -4, 6],
    [1, -10, 26, -40, 31, 24, -132, 252, -294, 150, 245, -838, 1422, -1623, 678, 12425, 5911, -2700,
      1052, -21, -479, 555, -383, 148, 25, -95, 87, -47, 12, 5, -9, 7],
    [5, -13, 22, -23, -4, 69, -156, 211, -149, -92, 496, -920, 1094, -633, -1203, 10905, 8624, -2337,
      326, 564, -780, 601, -282, 12, 126, -141, 90, -32, -4, 15, -12, 7],
    [7, -12, 15, -4, -32, 90, -141, 126, 12, -282, 601, -780, 564, 326, -2337, 8624, 10905, -1203,
      -633, 1094, -920, 496, -92, -149, 211, -156, 69, -4, -23, 22, -13, 5],
    [7, -9, 5, 12, -47, 87, -95, 25, 148, -383, 555, -479, -21, 1052, -2700, 5911, 12425, 678, -1623,
      1422, -838, 245, 150, -294, 252, -132, 24, 31, -40, 26, -10, 1]]

def rc480to80filter : List Int :=
  [-11, -8, -1, 8, 18, 27, 30, 25, 8, -19, -50, -77, -88, -74, -31, 36, 114, 181, 211, 185, 93,
    -55, -233, -395, -488, -460, -277, 69, 556, 1128, 1706, 2202, 2538, 2656, 2538, 2202, 1706,
    1128, 556, 69, -277, -460, -488, -395, -233, -55, 93, 185, 211, 181, 114, 36, -31, -74, -88,
    -77, -50, -19, 8, 25, 30, 27, 18, 8, -1, -8, -11, -12]

def rc480to96filter : List Int :=
  [11, 7, 0, -10, -20, -25, -20, -3, 22, 49, 63, 54, 17, -42, -103, -139, -126, -54, 65, 194, 278,
    270, 142, -87, -356, -564, -602, -389, 103, 824, 1652, 2423, 2970, 3167, 2970, 2423, 1652, 824,
    103, -389, -602, -564, -356, -87, 142, 270, 278, 194, 65, -54, -126, -139, -103, -42, 17, 54,
    63, 49, 22, -3, -20, -25, -20, -10, 0, 7, 11, 11]

def rc96to384filter : List Int := List.flatten
  [[0, 1, -2, 5, -9, 17, -29, 46, -69, 99, -137, 182, -234, 292, -354, 418, -482, 542, -596, 641,
      -675, 697, 15680, 697, -675, 641, -596, 542, -482, 418, -354, 292, -234, 182, -137, 99, -69,
      46, -29, 17, -9, 5, -2, 1, 0, 0],
    [-1, 2, -4, 7, -13, 21, -31, 45, -61, 79, -97, 114, -126, 131, -122, 93, -36, -62, 226, -505,
      1035, -2386, 14238, 5367, -2486, 1643, -1206, 920, -709, 545, -413, 306, -221, 154, -103, 65,
      -38, 20, -9, 2, 1, -2, 2, -1, 1, 0],
    [-1, 2, -3, 6, -9, 13, -17, 21, -23, 21, -14, -3, 32, -78, 145, -241, 374, -558, 820, -1213,
      1881, -3350, 10388, 10388, -3350, 1881, -1213, 820, -558, 374, -241, 145, -78, 32, -3, -14, 21,
      -23, 21, -17, 13, -9, 6, -3, 2, -1],
    [0, 1, -1, 2, -2, 1, 2, -9, 20, -38, 65, -103, 154, -221, 306, -413, 545, -709, 920, -1206, 1643,
      -2486, 5367, 14238, -2386, 1035, -505, 226, -62, -36, 93, -122, 131, -126, 114, -97, 79, -61,
      45, -31, 21, -13, 7, -4, 2, -1]]

def rc384to96filter : List Int :=
  [-12, -13, -7, 5, 19, 27, 21, -1, -32, -56, -54, -17, 44, 101, 115, 64, -42, -157, -214, -162, 3,
    217, 368, 348, 114, -270, -634, -756, -458, 307, 1410, 2571, 3453, 3782, 3453, 2571, 1410, 307,
    -458, -756, -634, -270, 114, 348, 368, 217, 3, -162, -214, -157, -42, 64, 115, 101, 44, -17,
    -54, -56, -32, -1, 21, 27, 19, 5, -7, -13, -12, -6]

def rc80to384filter : List Int := List.flatten
  [[3, -3, 3, 0, -5, 11, -17, 17, -7, -21, 72, -150, 256, -386, 531, -679, 816, -927, 999, 15361,
      999, -927, 816, -679, 531, -386, 256, -150, 72, -21, -7, 17, -17, 11, -5, 0, 3, -3, 3, -2],
    [2, -2, 1, 2, -8, 14, -20, 20, -8, -20, 70, -145, 243, -357, 475, -581, 648, -631, 361, 15322,
      1679, -1223, 977, -770, 580, -410, 266, -153, 72, -21, -6, 15, -14, 8, -2, -2, 4, -4, 4, -2],
    [2, -1, -1, 4, -10, 17, -22, 22, -10, -19, 68, -138, 226, -323, 414, -477, 477, -339, -231,
      15205, 2395, -1514, 1130, -852, 622, -428, 272, -153, 71, -21, -4, 12, -10, 4, 1, -5, 6, -5, 4,
      -3],
    [1, 0, -2, 7, -13, 20, -25, 23, -11, -18, 65, -129, 207, -286, 349, -370, 304, -55, -774, 15012,
      3144, -1797, 1271, -924, 656, -441, 274, -151, 69, -20, -3, 9, -7, 1, 4, -7, 7, -6, 5, -3],
    [0, 1, -4, 8, -15, 22, -27, 25, -12, -16, 60, -119, 185, -246, 281, -260, 134, 216, -1266, 14744,
      3920, -2067, 1397, -984, 680, -447, 271, -146, 65, -19, -2, 7, -3, -3, 7, -9, 9, -7, 5, -3],
    [0, 2, -5, 10, -17, 24, -28, 26, -13, -14, 55, -108, 162, -203, 211, -151, -33, 473, -1703,
      14404, 4717, -2318, 1507, -1031, 695, -446, 265, -139, 60, -17, -1, 4, 1, -7, 10, -12, 10, -8,
      6, -3],
    [-1, 3, -6, 12, -19, 26, -30, 27, -13, -12, 50, -95, 137, -160, 140, -43, -193, 711, -2084,
      13994, 5528, -2546, 1597, -1063, 700, -438, 253, -129, 53, -14, -1, 1, 4, -10, 13, -14, 12, -9,
      6, -4],
    [-1, 3, -7, 13, -20, 27, -30, 27, -14, -10, 44, -81, 111, -115, 69, 63, -345, 928, -2409, 13519,
      6348, -2747, 1667, -1080, 693, -423, 237, -117, 46, -11, 0, -2, 8, -13, 16, -16, 13, -9, 6, -4],
    [-2, 4, -8, 14, -21, 27, -30, 27, -14, -8, 38, -67, 84, -70, 0, 163, -486, 1122, -2677, 12983,
      7169, -2916, 1713, -1081, 676, -401, 217, -102, 37, -7, 0, -4, 11, -17, 19, -17, 14, -10, 6,
      -4],
    [-2, 5, -9, 15, -22, 28, -30, 26, -14, -7, 32, -53, 57, -26, -67, 258, -614, 1292, -2888, 12391,
      7985, -3049, 1734, -1065, 647, -372, 193, -84, 26, -3, 0, -6, 14, -20, 21, -19, 15, -10, 6, -4],
    [-3, 5, -10, 15, -22, 28, -29, 25, -13, -5, 25, -39, 31, 17, -130, 346, -729, 1434, -3043, 11748,
      8789, -3141, 1729, -1031, 608, -336, 164, -65, 15, 2, -1, -8, 17, -22, 23, -20, 15, -10, 6, -4],
    [-3, 6, -10, 16, -22, 27, -28, 24, -13, -4, 19, -24, 5, 58, -190, 426, -829, 1550, -3144, 11060,
      9574, -3190, 1697, -981, 558, -293, 132, -43, 3, 7, -1, -10, 20, -25, 25, -21, 16, -10, 6, -3],
    [-3, 6, -10, 16, -22, 26, -27, 22, -11, -2, 13, -11, -20, 97, -244, 497, -914, 1638, -3192,
      10333, 10333, -3192, 1638, -914, 497, -244, 97, -20, -11, 13, -2, -11, 22, -27, 26, -22, 16,
      -10, 6, -3],
    [-3, 6, -10, 16, -21, 25, -25, 20, -10, -1, 7, 3, -43, 132, -293, 558, -981, 1697, -3190, 9574,
      11060, -3144, 1550, -829, 426, -190, 58, 5, -24, 19, -4, -13, 24, -28, 27, -22, 16, -10, 6, -3],
    [-4, 6, -10, 15, -20, 23, -22, 17, -8, -1, 2, 15, -65, 164, -336, 608, -1031, 1729, -3141, 8789,
      11748, -3043, 1434, -729, 346, -130, 17, 31, -39, 25, -5, -13, 25, -29, 28, -22, 15, -10, 5,
      -3],
    [-4, 6, -10, 15, -19, 21, -20, 14, -6, 0, -3, 26, -84, 193, -372, 647, -1065, 1734, -3049, 7985,
      12391, -2888, 1292, -614, 258, -67, -26, 57, -53, 32, -7, -14, 26, -30, 28, -22, 15, -9, 5, -2],
    [-4, 6, -10, 14, -17, 19, -17, 11, -4, 0, -7, 37, -102, 217, -401, 676, -1081, 1713, -2916, 7169,
      12983, -2677, 1122, -486, 163, 0, -70, 84, -67, 38, -8, -14, 27, -30, 27, -21, 14, -8, 4, -2],
    [-4, 6, -9, 13, -16, 16, -13, 8, -2, 0, -11, 46, -117, 237, -423, 693, -1080, 1667, -2747, 6348,
      13519, -2409, 928, -345, 63, 69, -115, 111, -81, 44, -10, -14, 27, -30, 27, -20, 13, -7, 3, -1],
    [-4, 6, -9, 12, -14, 13, -10, 4, 1, -1, -14, 53, -129, 253, -438, 700, -1063, 1597, -2546, 5528,
      13994, -2084, 711, -193, -43, 140, -160, 137, -95, 50, -12, -13, 27, -30, 26, -19, 12, -6, 3,
      -1],
    [-3, 6, -8, 10, -12, 10, -7, 1, 4, -1, -17, 60, -139, 265, -446, 695, -1031, 1507, -2318, 4717,
      14404, -1703, 473, -33, -151, 211, -203, 162, -108, 55, -14, -13, 26, -28, 24, -17, 10, -5, 2,
      0],
    [-3, 5, -7, 9, -9, 7, -3, -3, 7, -2, -19, 65, -146, 271, -447, 680, -984, 1397, -2067, 3920,
      14744, -1266, 216, 134, -260, 281, -246, 185, -119, 60, -16, -12, 25, -27, 22, -15, 8, -4, 1,
      0],
    [-3, 5, -6, 7, -7, 4, 1, -7, 9, -3, -20, 69, -151, 274, -441, 656, -924, 1271, -1797, 3144,
      15012, -774, -55, 304, -370, 349, -286, 207, -129, 65, -18, -11, 23, -25, 20, -13, 7, -2, 0, 1],
    [-3, 4, -5, 6, -5, 1, 4, -10, 12, -4, -21, 71, -153, 272, -428, 622, -852, 1130, -1514, 2395,
      15205, -231, -339, 477, -477, 414, -323, 226, -138, 68, -19, -10, 22, -22, 17, -10, 4, -1, -1,
      2],
    [-2, 4, -4, 4, -2, -2, 8, -14, 15, -6, -21, 72, -153, 266, -410, 580, -770, 977, -1223, 1679,
      15322, 361, -631, 648, -581, 475, -357, 243, -145, 70, -20, -8, 20, -20, 14, -8, 2, 1, -2, 2]]

def rc384to80filter : List Int := List.flatten
  [[6, 5, 2, -5, -12, -17, -16, -6, 12, 34, 49, 48, 22, -25, -80, -119, -119, -63, 42, 164, 256,
      263, 156, -59, -325, -543, -601, -408, 72, 794, 1637, 2430, 2994, 3199, 2994, 2430, 1637, 794,
      72, -408, -601, -543, -325, -59, 156, 263, 256, 164, 42, -63, -119, -119, -80, -25, 22, 48, 49,
      34, 12, -6, -16, -17, -12, -5, 2, 5, 6, 5],
    [6, 6, 2, -3, -10, -16, -17, -9, 8, 29, 47, 50, 30, -14, -69, -114, -123, -78, 18, 141, 242, 270,
      187, -10, -272, -508, -607, -469, -46, 635, 1467, 2284, 2907, 3191, 3067, 2566, 1806, 958, 200,
      -335, -585, -571, -376, -111, 120, 251, 265, 187, 66, -45, -112, -123, -90, -36, 14, 45, 51,
      38, 16, -3, -15, -17, -13, -6, 0, 5, 6, 5],
    [6, 6, 3, -2, -9, -15, -17, -11, 4, 25, 44, 51, 36, -4, -58, -107, -125, -92, -4, 116, 226, 273,
      213, 37, -218, -468, -604, -519, -153, 482, 1296, 2131, 2806, 3166, 3124, 2692, 1971, 1126,
      337, -250, -558, -591, -424, -164, 81, 235, 271, 208, 91, -26, -103, -125, -99, -47, 6, 41, 51,
      41, 21, 0, -13, -18, -14, -8, -1, 4, 6, 6],
    [6, 6, 4, -1, -8, -14, -18, -13, 0, 21, 41, 51, 41, 6, -47, -99, -125, -103, -26, 91, 208, 271,
      235, 81, -164, -424, -591, -558, -250, 337, 1126, 1971, 2692, 3124, 3166, 2806, 2131, 1296,
      482, -153, -519, -604, -468, -218, 37, 213, 273, 226, 116, -4, -92, -125, -107, -58, -4, 36,
      51, 44, 25, 4, -11, -17, -15, -9, -2, 3, 6, 6],
    [5, 6, 5, 0, -6, -13, -17, -15, -3, 16, 38, 51, 45, 14, -36, -90, -123, -112, -45, 66, 187, 265,
      251, 120, -111, -376, -571, -585, -335, 200, 958, 1806, 2566, 3067, 3191, 2907, 2284, 1467,
      635, -46, -469, -607, -508, -272, -10, 187, 270, 242, 141, 18, -78, -123, -114, -69, -14, 30,
      50, 47, 29, 8, -9, -17, -16, -10, -3, 2, 6, 6]]

def rc96to120filter : List Int := List.flatten
  [[3, -8, 21, -48, 94, -165, 263, -386, 526, -673, 811, -924, 998, 15360, 998, -924, 811, -673,
      526, -386, 263, -165, 94, -48, 21, -8, 3, -1],
    [3, -9, 22, -45, 79, -124, 173, -213, 223, -171, 0, 421, -1618, 14475, 4553, -2263, 1478, -1014,
      686, -446, 271, -152, 76, -33, 11, -3, 0, 0],
    [3, -7, 16, -28, 42, -51, 43, 0, -105, 309, -680, 1374, -2982, 12008, 8466, -3102, 1725, -1038,
      619, -349, 179, -77, 23, 0, -7, 6, -4, 2],
    [2, -4, 6, -7, 0, 23, -77, 179, -349, 619, -1038, 1725, -3102, 8466, 12008, -2982, 1374, -680,
      309, -105, 0, 43, -51, 42, -28, 16, -7, 3],
    [0, 0, -3, 11, -33, 76, -152, 271, -446, 686, -1014, 1478, -2263, 4553, 14475, -1618, 421, 0,
      -171, 223, -213, 173, -124, 79, -45, 22, -9, 3]]

def rc120to96filter : List Int := List.flatten
  [[1, -2, 2, -1, 0, 0, 3, -3, -3, 16, -29, 23, 12, -66, 105, -82, -26, 181, -284, 224, 44, -428,
      704, -598, -58, 1210, -2548, 3621, 12351, 3621, -2548, 1210, -58, -598, 704, -428, 44, 224,
      -284, 181, -26, -82, 105, -66, 12, 23, -29, 16, -3, -3, 3, 0, 0, -1, 2, -2, 1, 1],
    [2, -2, 1, 0, -1, 0, 1, 0, -8, 17, -18, -1, 39, -75, 72, -4, -113, 214, -204, 28, 269, -526, 523,
      -111, -662, 1492, -1837, 744, 11637, 6785, -2469, 414, 663, -933, 651, -163, -224, 361, -270,
      78, 82, -139, 104, -32, -25, 43, -30, 9, 5, -7, 3, 0, 0, -1, 2, -1, -1, 2],
    [3, -2, 0, 1, -1, 0, 0, 3, -9, 12, -4, -20, 49, -58, 20, 65, -154, 174, -67, -156, 384, -443,
      193, 354, -973, 1259, -713, -1372, 9646, 9646, -1372, -713, 1259, -973, 354, 193, -443, 384,
      -156, -67, 174, -154, 65, 20, -58, 49, -20, -4, 12, -9, 3, 0, 0, -1, 1, 0, -2, 3],
    [2, -1, -1, 2, -1, 0, 0, 3, -7, 5, 9, -30, 43, -25, -32, 104, -139, 82, 78, -270, 361, -224,
      -163, 651, -933, 663, 414, -2469, 6785, 11637, 744, -1837, 1492, -662, -111, 523, -526, 269,
      28, -204, 214, -113, -4, 72, -75, 39, -1, -18, 17, -8, 0, 1, 0, -1, 0, 1, -2, 2]]

def rc80to120filter : List Int := List.flatten
  [[6, -8, 11, -13, 14, -10, 0, 22, -58, 111, -183, 275, -385, 510, -642, 776, -902, 1011, -1096,
      1150, 15216, 1150, -1096, 1011, -902, 776, -642, 510, -385, 275, -183, 111, -58, 22, 0, -10,
      14, -13, 11, -8, 6, -5],
    [2, -1, -1, 6, -14, 29, -51, 81, -118, 160, -204, 241, -265, 262, -219, 115, 80, -426, 1075,
      -2627, 12917, 7257, -3030, 1849, -1228, 821, -529, 314, -158, 51, 18, -56, 72, -72, 64, -51,
      37, -25, 16, -9, 5, -3],
    [-3, 5, -9, 16, -25, 37, -51, 64, -72, 72, -56, 18, 51, -158, 314, -529, 821, -1228, 1849, -3030,
      7257, 12917, -2627, 1075, -426, 80, 115, -219, 262, -265, 241, -204, 160, -118, 81, -51, 29,
      -14, 6, -1, -1, 2]]

def rc120to80filter : List Int := List.flatten
  [[8, -16, 3, 25, -29, -17, 66, -33, -79, 125, 13, -205, 162, 166, -389, 94, 500, -590, -248, 1205,
      -750, -1719, 4841, 10107, 4841, -1719, -750, 1205, -248, -590, 500, 94, -389, 166, 162, -205,
      13, 125, -79, -33, 66, -17, -29, 25, 3, -16, 8, 7],
    [12, -5, -14, 22, 4, -42, 34, 41, -95, 20, 134, -150, -72, 291, -149, -304, 491, 24, -779, 679,
      679, -2008, 795, 8586, 8586, 795, -2008, 679, 679, -779, 24, 491, -304, -149, 291, -72, -150,
      134, 20, -95, 41, 34, -42, 4, 22, -14, -5, 12]]

def rc96to320filter : List Int := List.flatten
  [[-1, 0, 0, 2, -7, 19, -42, 78, -131, 203, -293, 401, -520, 644, -763, 869, -952, 1006, 15360,
      1006, -952, 869, -763, 644, -520, 401, -293, 203, -131, 78, -42, 19, -7, 2, 0, 0, -1, 1],
    [0, 0, -1, 4, -11, 25, -49, 85, -135, 198, -271, 349, -421, 475, -491, 436, -231, -458, 15136,
      2706, -1669, 1259, -985, 765, -578, 420, -291, 189, -114, 62, -29, 11, -2, -1, 1, 0, -1, 2],
    [0, 0, -1, 5, -14, 29, -52, 85, -128, 177, -228, 271, -293, 278, -197, 0, 437, -1635, 14479,
      4575, -2319, 1570, -1135, 826, -588, 403, -261, 157, -85, 39, -13, 0, 4, -4, 2, 0, -1, 2],
    [1, 0, -2, 6, -15, 29, -50, 78, -111, 143, -168, 175, -148, 69, 95, -404, 1005, -2495, 13423,
      6533, -2838, 1765, -1194, 816, -546, 348, -206, 108, -46, 10, 7, -12, 11, -7, 4, -1, -1, 2],
    [1, -1, -2, 6, -14, 27, -44, 65, -85, 99, -98, 70, 0, -133, 361, -744, 1436, -3027, 12022, 8489,
      -3163, 1817, -1149, 733, -452, 258, -128, 47, 0, -22, 27, -24, 17, -10, 5, -1, -1, 2],
    [2, -1, -1, 6, -13, 23, -35, 47, -54, 50, -24, -34, 139, -311, 578, -997, 1710, -3241, 10349,
      10349, -3241, 1710, -997, 578, -311, 139, -34, -24, 50, -54, 47, -35, 23, -13, 6, -1, -1, 2],
    [2, -1, -1, 5, -10, 17, -24, 27, -22, 0, 47, -128, 258, -452, 733, -1149, 1817, -3163, 8489,
      12022, -3027, 1436, -744, 361, -133, 0, 70, -98, 99, -85, 65, -44, 27, -14, 6, -2, -1, 1],
    [2, -1, -1, 4, -7, 11, -12, 7, 10, -46, 108, -206, 348, -546, 816, -1194, 1765, -2838, 6533,
      13423, -2495, 1005, -404, 95, 69, -148, 175, -168, 143, -111, 78, -50, 29, -15, 6, -2, 0, 1],
    [2, -1, 0, 2, -4, 4, 0, -13, 39, -85, 157, -261, 403, -588, 826, -1135, 1570, -2319, 4575, 14479,
      -1635, 437, 0, -197, 278, -293, 271, -228, 177, -128, 85, -52, 29, -14, 5, -1, 0, 0],
    [2, -1, 0, 1, -1, -2, 11, -29, 62, -114, 189, -291, 420, -578, 765, -985, 1259, -1669, 2706,
      15136, -458, -231, 436, -491, 475, -421, 349, -271, 198, -135, 85, -49, 25, -11, 4, -1, 0, 0]]

def rc320to96filter : List Int := List.flatten
  [[-5, 0, 8, 12, 7, -7, -22, -23, -3, 30, 51, 35, -22, -82, -92, -24, 91, 167, 123, -44, -230,
      -279, -102, 226, 471, 393, -65, -661, -939, -480, 802, 2533, 4022, 4609, 4022, 2533, 802, -480,
      -939, -661, -65, 393, 471, 226, -102, -279, -230, -44, 123, 167, 91, -24, -92, -82, -22, 35,
      51, 30, -3, -23, -22, -7, 7, 12, 8, 0, -5, -6],
    [-6, -2, 5, 11, 10, -2, -18, -25, -12, 19, 47, 45, 0, -65, -97, -55, 52, 152, 154, 21, -176,
      -286, -185, 112, 415, 464, 121, -473, -912, -729, 297, 1945, 3598, 4541, 4342, 3093, 1359,
      -135, -881, -814, -268, 277, 490, 330, 0, -245, -269, -112, 78, 168, 126, 13, -78, -93, -44,
      19, 51, 40, 7, -19, -24, -13, 3, 11, 10, 3, -4, -7],
    [-7, -4, 3, 10, 11, 3, -13, -24, -19, 7, 40, 51, 19, -44, -93, -78, 13, 126, 168, 78, -112, -269,
      -245, 0, 330, 490, 277, -268, -814, -881, -135, 1359, 3093, 4342, 4541, 3598, 1945, 297, -729,
      -912, -473, 121, 464, 415, 112, -185, -286, -176, 21, 154, 152, 52, -55, -97, -65, 0, 45, 47,
      19, -12, -25, -18, -2, 10, 11, 5, -2, -6]]

def rc72to80filter : List Int := List.flatten
  [[0, 1, -3, 7, -13, 23, -39, 60, -88, 122, -162, 206, -252, 298, -342, 379, -408, 426, 7761, 426,
      -408, 379, -342, 298, -252, 206, -162, 122, -88, 60, -39, 23, -13, 7, -3, 1, 0, 0],
    [-1, 2, -4, 8, -15, 26, -40, 60, -83, 110, -138, 165, -187, 199, -192, 151, -40, -308, 7646,
      1284, -779, 590, -470, 377, -298, 230, -171, 123, -84, 55, -33, 19, -9, 4, -1, 0, 0, 0],
    [-1, 2, -5, 9, -16, 26, -38, 54, -72, 89, -105, 113, -110, 88, -35, -72, 295, -892, 7307, 2233,
      -1122, 765, -565, 426, -319, 234, -166, 113, -73, 44, -24, 12, -4, 1, 1, -1, 1, -1],
    [-1, 3, -5, 9, -15, 23, -33, 44, -55, 63, -64, 54, -28, -24, 115, -273, 573, -1311, 6764, 3231,
      -1402, 884, -614, 439, -312, 217, -145, 92, -54, 29, -12, 3, 1, -3, 3, -2, 2, -1],
    [-1, 3, -5, 8, -13, 19, -26, 32, -34, 32, -20, -6, 52, -127, 246, -437, 777, -1561, 6044, 4231,
      -1587, 931, -611, 413, -277, 180, -110, 62, -29, 9, 2, -7, 8, -7, 5, -3, 2, -1],
    [-1, 2, -4, 7, -10, 14, -17, 17, -12, 0, 23, -62, 123, -214, 347, -551, 897, -1648, 5185, 5185,
      -1648, 897, -551, 347, -214, 123, -62, 23, 0, -12, 17, -17, 14, -10, 7, -4, 2, -1],
    [-1, 2, -3, 5, -7, 8, -7, 2, 9, -29, 62, -110, 180, -277, 413, -611, 931, -1587, 4231, 6044,
      -1561, 777, -437, 246, -127, 52, -6, -20, 32, -34, 32, -26, 19, -13, 8, -5, 3, -1],
    [-1, 2, -2, 3, -3, 1, 3, -12, 29, -54, 92, -145, 217, -312, 439, -614, 884, -1402, 3231, 6764,
      -1311, 573, -273, 115, -24, -28, 54, -64, 63, -55, 44, -33, 23, -15, 9, -5, 3, -1],
    [-1, 1, -1, 1, 1, -4, 12, -24, 44, -73, 113, -166, 234, -319, 426, -565, 765, -1122, 2233, 7307,
      -892, 295, -72, -35, 88, -110, 113, -105, 89, -72, 54, -38, 26, -16, 9, -5, 2, -1],
    [0, 0, 0, -1, 4, -9, 19, -33, 55, -84, 123, -171, 230, -298, 377, -470, 590, -779, 1284, 7646,
      -308, -40, 151, -192, 199, -187, 165, -138, 110, -83, 60, -40, 26, -15, 8, -4, 2, -1]]

def rc80to72filter : List Int := List.flatten
  [[1, 1, -7, 19, -37, 55, -63, 44, 17, -133, 305, -518, 744, -946, 1086, 7057, 1086, -946, 744,
      -518, 305, -133, 17, 44, -63, 55, -37, 19, -7, 1, 1, -2],
    [0, 3, -10, 20, -34, 44, -39, 5, 69, -188, 341, -501, 622, -629, 311, 6950, 1950, -1214, 807,
      -487, 237, -62, -40, 82, -82, 61, -36, 16, -4, -1, 2, -2],
    [-1, 4, -11, 20, -29, 31, -14, -31, 111, -222, 344, -442, 457, -293, -345, 6635, 2864, -1400,
      799, -408, 142, 21, -99, 115, -96, 63, -32, 11, 0, -3, 3, -3],
    [-2, 5, -11, 17, -21, 16, 10, -61, 140, -234, 318, -348, 266, 32, -859, 6129, 3784, -1477, 715,
      -283, 26, 108, -153, 140, -101, 58, -24, 4, 4, -6, 4, -3],
    [-3, 5, -10, 14, -13, 1, 31, -84, 154, -225, 265, -231, 67, 321, -1219, 5460, 4665, -1423, 553,
      -121, -103, 192, -196, 154, -97, 47, -13, -4, 9, -8, 5, -3],
    [-3, 5, -8, 9, -4, -13, 47, -97, 154, -196, 192, -103, -121, 553, -1423, 4665, 5460, -1219, 321,
      67, -231, 265, -225, 154, -84, 31, 1, -13, 14, -10, 5, -3],
    [-3, 4, -6, 4, 4, -24, 58, -101, 140, -153, 108, 26, -283, 715, -1477, 3784, 6129, -859, 32, 266,
      -348, 318, -234, 140, -61, 10, 16, -21, 17, -11, 5, -2],
    [-3, 3, -3, 0, 11, -32, 63, -96, 115, -99, 21, 142, -408, 799, -1400, 2864, 6635, -345, -293,
      457, -442, 344, -222, 111, -31, -14, 31, -29, 20, -11, 4, -1],
    [-2, 2, -1, -4, 16, -36, 61, -82, 82, -40, -62, 237, -487, 807, -1214, 1950, 6950, 311, -629,
      622, -501, 341, -188, 69, 5, -39, 44, -34, 20, -10, 3, 0]]

end Core
end Slmodem
