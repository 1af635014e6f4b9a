import Mathlib.Tactic

/-!
# Tables of the V.34 mapper

Data only.  A table is the list of the source's entries in their order.
-/

namespace Slmodem
namespace V34

/-- The branch codes of a sub-frame that is not inverted. -/
def kkNormal : List Nat := [
  0, 10, 5, 15, 2, 8, 7, 13, 1, 11, 6, 12, 3, 9, 4, 14]

def kkInvert : List Nat := [
  1, 11, 6, 12, 3, 9, 4, 14, 0, 10, 5, 15, 2, 8, 7, 13]

/-- The inversion bit of each frame of a superframe. -/
def gInvertPat : List Nat := [
  0, 1, 1, 1, 0, 1, 1, 1, 1, 1, 1, 1, 1, 0, 1, 0]

/-- The points of one quadrant, two signed bytes each, the first coordinate in the low byte. -/
def quarter : List Int := [
  257, -767, 509, -515, 261, 1281, -763, 1533, 1285, -1791, 505, -1539, -519, -1787, 1529, 265,
  2305, -759, 2557, -1543, 1289, 2309, -2815, 501, -1783, -2563, 2553, -523, -2811, 1525, 2313,
  269, 3329, -2567, -1547, -755, 3581, 1293, 3333, -2807, 2549, -1779, 3577, -3839, 497, -3587,
  -527, -2571, 2317, 3337, -3835, 1521, -3591, -1551, 273, -2803, 4353, 3573, -751, 4605, -3831,
  2545, 1297, 4357, -1775, 3341, 4601, -3595, -2575, -4863, 493, 2321, 4361, -4611, -531, -4859,
  1517, -3827, 3569, -2799, -4615, 4597, -1555, 277, -4855, 5377, 2541, -747, 5629, -3599, 3345,
  4365, 1301, 5381, -4619, -2579, -1771, 5625, -3823, 4593, 2325, 5385, -4851, -5887, 3565, 489,
  -5635, -535, -5883, 1513, -2795, 5621, 4369, -5639, -1559, -4623, -3603, 3349, 5389, -5879,
  2537, 281, 6401, -743, 6653, 1305, -4847, 6405, -5643, 4589, -2583, -3819, 5617, -1767, 6649,
  -5875, 3561, 2329, 6409, -4627, 4373, 5393, -6911, 485, -6659, -539, -2791, 6645, -6907, -5647,
  -3607, 1509, -6663, -1563, 3353, 6413, -4843, 5613, -6903, 2533, -5871, 4585, 285, 7425, -739,
  -3815, 7677, -6667, 6641, -2587, 1309, 7429, 5397, -1763, 7673, -5651, -4631, -6899, 3557,
  4377, 6417, 2333, 7433, -6671, -3611, -2787, -7935, 7669, 481, -5867, -7683, 5609, -543, -4839,
  -7931, 6637, 1505, 3357, 7437, -7687, -1567, -6895, 4581, -7927, 2529, -5655, -3811, 5401,
  6421, 7665, -7691, -2591, 289, 8449, -6675, -4635, -735, 8701, 1313, 8453, 4381, 7441, -7923,
  3553, -1759, 8697, -5863, 6633, 2337, -6891, 8457, 5605, -7695, -3615, -4835, 7661, -2783,
  8693, -8959, 477, -8707, -547, 6425, -7919, -8955, 4577, 1501, 3361, 8461, -6679, -5659, -8711,
  -1571, 5405, 7445, -8951, 2525, -3807, 8689, -7699, -4639, -8715, -2595, -6887, 6629, 293,
  -5859, 9473, 7657, -731, 4385, 8465, 9725, 1317, -8947, 9477, 3549, -7915, 5601, -1755, 9721,
  2341, -4831, 9481, -8719, 8685, -3619, -6683, 6429, 7449, -2779, 9717, -7703, -5663, -8943,
  4573, -9983, 473, 5409, 8469, -9731, -551, 3365, 9485, -9979, 1497, -6883, -9735, 7653, -1575,
  -7911, -8723, 6625, -4643, -3803, 9713, -9975, 2521, -5855, 8681, -9739, -2599, 4389, 9489,
  -8939, 5597, 297, 7453, 10497, -727, -9971, 10749, -7707, -6687, 3545, 1321, 10501, 6433, 8473,
  -1751, -4827, 10745, 9709, -9743, -3623, -8727, -5667, 2345, 10505, -2775, -7907, 10741, 7649,
  5413, 9493, -9967, 4569, -6879, 8677, 3369, -8935, 10509, -11007, 6621, 469, -10755, -555,
  -11003, 1493, -9747, -4647, -5851, -10759, 9705, -1579, -3799, 10737, -7711, 7457, 8477,
  -10999, 2517, -8731, -6691, -9963, 5593, 4393, 10513, -10763, -2603, 6437, 9497, -10995, 3541,
  301, 11521, -723, 11773, -4823, 10733, 1325, -7903, 11525, -9751, 8673, -5671, -8931, 7645,
  -1747, 11769, -10767, -3627, -6875, 9701, 2349, 11529]

/-- The entry of `quarter` at each point of the grid. -/
def grid : List Nat := [
  0, 0, 0, 0, 0, 0, 0, 411, 389, 374, 366, 364, 368, 381, 393, 0, 0, 0, 0, 0, 0, 0, 0, 0, 0, 0,
  0, 0, 405, 370, 344, 321, 309, 301, 297, 305, 317, 334, 356, 385, 0, 0, 0, 0, 0, 0, 0, 0, 0, 0,
  383, 346, 313, 286, 262, 252, 241, 239, 246, 256, 276, 295, 325, 363, 407, 0, 0, 0, 0, 0, 0, 0,
  377, 333, 293, 260, 233, 211, 200, 192, 188, 196, 204, 223, 245, 278, 312, 352, 404, 0, 0, 0,
  0, 0, 382, 332, 287, 250, 215, 184, 169, 153, 145, 143, 151, 159, 178, 202, 231, 264, 308, 358,
  413, 0, 0, 0, 403, 345, 292, 249, 205, 176, 150, 130, 114, 107, 105, 109, 120, 136, 161, 191,
  227, 268, 319, 373, 0, 0, 0, 369, 311, 259, 214, 175, 139, 116, 95, 82, 74, 70, 76, 86, 104,
  129, 157, 195, 235, 285, 342, 399, 0, 410, 343, 284, 232, 183, 149, 115, 89, 68, 53, 46, 44,
  51, 61, 78, 99, 132, 168, 209, 258, 315, 376, 0, 388, 320, 261, 210, 167, 128, 94, 67, 47, 34,
  27, 23, 29, 40, 57, 81, 111, 147, 187, 237, 291, 351, 0, 372, 307, 251, 199, 152, 113, 80, 52,
  33, 19, 12, 10, 14, 26, 42, 66, 97, 134, 174, 225, 280, 341, 409, 365, 300, 240, 190, 144, 106,
  73, 45, 25, 11, 3, 2, 7, 18, 36, 59, 88, 124, 166, 217, 272, 331, 397, 362, 296, 238, 186, 142,
  103, 69, 43, 22, 9, 1, 0, 5, 16, 32, 56, 85, 122, 163, 213, 267, 328, 395, 367, 304, 244, 194,
  148, 108, 75, 50, 28, 13, 6, 4, 8, 21, 38, 63, 93, 127, 171, 219, 275, 336, 402, 380, 316, 255,
  203, 158, 119, 84, 60, 39, 24, 17, 15, 20, 30, 49, 72, 101, 138, 182, 230, 283, 348, 415, 392,
  330, 274, 222, 177, 135, 102, 77, 55, 41, 35, 31, 37, 48, 65, 91, 118, 155, 198, 248, 303, 361,
  0, 0, 355, 294, 243, 201, 160, 126, 98, 79, 64, 58, 54, 62, 71, 90, 112, 141, 180, 221, 271,
  323, 387, 0, 0, 384, 324, 277, 229, 189, 156, 131, 110, 96, 87, 83, 92, 100, 117, 140, 172,
  208, 254, 299, 354, 0, 0, 0, 0, 360, 310, 263, 226, 193, 165, 146, 133, 123, 121, 125, 137,
  154, 179, 207, 242, 289, 338, 391, 0, 0, 0, 0, 406, 350, 306, 266, 234, 206, 185, 173, 164,
  162, 170, 181, 197, 220, 253, 288, 327, 379, 0, 0, 0, 0, 0, 0, 401, 357, 318, 282, 257, 236,
  224, 216, 212, 218, 228, 247, 270, 298, 337, 378, 0, 0, 0, 0, 0, 0, 0, 0, 412, 371, 340, 314,
  290, 279, 269, 265, 273, 281, 302, 322, 353, 390, 0, 0, 0, 0, 0, 0, 0, 0, 0, 0, 0, 398, 375,
  349, 339, 329, 326, 335, 347, 359, 386, 0, 0, 0, 0, 0, 0, 0, 0, 0, 0, 0, 0, 0, 0, 0, 0, 408,
  396, 394, 400, 414, 0, 0, 0, 0, 0, 0, 0, 0, 0]

def kTable : List Nat := [
  0, 1, 2, 3, 2, 3, 0, 1, 1, 0, 3, 2, 3, 2, 1, 0, 4, 5, 6, 7, 6, 7, 4, 5, 5, 4, 7, 6, 7, 6, 5, 4,
  2, 3, 0, 1, 0, 1, 2, 3, 3, 2, 1, 0, 1, 0, 3, 2, 6, 7, 4, 5, 4, 5, 6, 7, 7, 6, 5, 4, 5, 4, 7, 6]

/-- The ring sizes by `wide_bits`. -/
def mMinTable : List Nat := [
  1, 2, 2, 2, 2, 2, 2, 2, 2, 3, 3, 3, 3, 4, 4, 4, 4, 5, 5, 6, 6, 7, 7, 8, 8, 9, 10, 11, 12, 13,
  14, 15]

def mMaxTable : List Nat := [
  1, 2, 2, 2, 2, 2, 2, 2, 3, 3, 3, 3, 4, 4, 4, 5, 5, 5, 6, 6, 7, 8, 8, 9, 10, 11, 12, 13, 14, 15,
  17, 18]

def smIndex : List Nat := [
  0, 7, 4, 3, 5, 2, 1, 6, 4, 3, 0, 7, 1, 6, 5, 2]

/-- `lsbMask[n]` is `2 ^ n - 1`. -/
def lsbMask : List Nat := [
  0, 1, 3, 7, 15, 31, 63, 127, 255, 511, 1023, 2047, 4095, 8191, 16383, 32767, 65535]

def convolve16 : List Nat := [
  0, 0, 2, 2, 0, 0, 2, 2, 14, 12, 12, 14, 14, 12, 12, 14, 2, 2, 0, 0, 2, 2, 0, 0, 12, 14, 14, 12,
  12, 14, 14, 12, 0, 0, 2, 2, 0, 0, 2, 2, 14, 12, 12, 14, 14, 12, 12, 14, 2, 2, 0, 0, 2, 2, 0, 0,
  12, 14, 14, 12, 12, 14, 14, 12]

def convolve32 : List Nat := [
  0, 0, 8, 8, 4, 4, 12, 12, 26, 18, 18, 26, 30, 22, 22, 30, 8, 8, 0, 0, 12, 12, 4, 4, 18, 26, 26,
  18, 22, 30, 30, 22, 4, 4, 12, 12, 0, 0, 8, 8, 30, 22, 22, 30, 26, 18, 18, 26, 12, 12, 4, 4, 8,
  8, 0, 0, 22, 30, 30, 22, 18, 26, 26, 18]

def convolve64 : List Nat := [
  0, 0, 1, 1, 8, 8, 9, 9, 3, 2, 2, 3, 11, 10, 10, 11, 5, 5, 4, 4, 13, 13, 12, 12, 6, 7, 7, 6, 14,
  15, 15, 14, 8, 8, 9, 9, 0, 0, 1, 1, 11, 10, 10, 11, 3, 2, 2, 3, 13, 13, 12, 12, 5, 5, 4, 4, 14,
  15, 15, 14, 6, 7, 7, 6]

/-- Twenty offsets, and from `xyz[n]` to `xyz[n + 1]` the shell counts of a ring of `n` points. -/
def xyz : List Nat := [
  0, 20, 21, 30, 47, 72, 105, 146, 195, 252, 317, 390, 471, 560, 657, 762, 831, 831, 889, 945, 0,
  0, 1, 9, 37, 93, 163, 219, 247, 255, 0, 1, 9, 45, 157, 423, 927, 1711, 2727, 3834, 4850, 5634,
  6138, 6404, 6516, 6552, 6560, 0, 1, 9, 45, 165, 487, 1215, 2643, 5115, 8938, 14266, 20994,
  28722, 36814, 44542, 51270, 56598, 60421, 62893, 64321, 65049, 65371, 65491, 65527, 65535, 0,
  1, 9, 45, 165, 495, 1279, 2931, 6075, 11550, 20350, 33490, 51810, 75750, 105150, 139150,
  176230, 214395, 251475, 285475, 314875, 338815, 357135, 370275, 379075, 384550, 387694, 389346,
  390130, 390460, 390580, 390616, 390624, 0, 1, 9, 45, 165, 495, 1287, 2995, 6363, 12510, 22990,
  39798, 65286, 101974, 152262, 218070, 300454, 399267, 512955, 638543, 771831, 907785, 1041073,
  1166661, 1280349, 1379162, 1461546, 1527354, 1577642, 1614330, 1639818, 1656626, 1667106,
  1673253, 1676621, 1678329, 1679121, 1679451, 1679571, 1679607, 1679615, 0, 1, 9, 45, 165, 495,
  1287, 3003, 6427, 12798, 23950, 42438, 71622, 115674, 179466, 268318, 387606, 542251, 736131,
  971479, 1248351, 1564269, 1914109, 2290269, 2683117, 3081684, 3474532, 3850692, 4200532,
  4516450, 4793322, 5028670, 5222550, 5377195, 5496483, 5585335, 5649127, 5693179, 5722363,
  5740851, 5752003, 5758374, 5761798, 5763514, 5764306, 5764636, 5764756, 5764792, 5764800, 0, 1,
  9, 45, 165, 495, 1287, 3003, 6435, 12862, 24238, 43398, 74262, 122010, 193194, 295746, 438834,
  632539, 887347, 1213471, 1620039, 2114205, 2700261, 3378849, 4146393, 4994836, 5911732,
  6880708, 7882276, 8894940, 9896508, 10865484, 11782380, 12630823, 13398367, 14076955, 14663011,
  15157177, 15563745, 15889869, 16144677, 16338382, 16481470, 16584022, 16655206, 16702954,
  16733818, 16752978, 16764354, 16770781, 16774213, 16775929, 16776721, 16777051, 16777171,
  16777207, 16777215, 0, 1, 9, 45, 165, 495, 1287, 3003, 6435, 12870, 24302, 43686, 75222,
  124650, 199530, 309474, 466290, 683991, 978615, 1367823, 1870263, 2504709, 3289005, 4238865,
  5366601, 6679872, 8180568, 9863964, 11718244, 13724460, 15856956, 18084252, 20370348, 22676373,
  24962469, 27189765, 29322261, 31328477, 33182757, 34866153, 36366849, 37680120, 38807856,
  39757716, 40542012, 41176458, 41678898, 42068106, 42362730, 42580431, 42737247, 42847191,
  42922071, 42971499, 43003035, 43022419, 43033851, 43040286, 43043718, 43045434, 43046226,
  43046556, 43046676, 43046712, 43046720, 0, 1, 9, 45, 165, 495, 1287, 3003, 6435, 12870, 24310,
  43750, 75510, 125610, 202170, 315810, 480018, 711447, 1030095, 1459315, 2025595, 2758069,
  3687741, 4846425, 6265425, 7974000, 9997680, 12356520, 15063400, 18122500, 21528100, 25263820,
  29302380, 33605925, 38126925, 42809625, 47591985, 52408015, 57190375, 61873075, 66394075,
  70697620, 74736180, 78471900, 81877500, 84936600, 87643480, 90002320, 92026000, 93734575,
  95153575, 96312259, 97241931, 97974405, 98540685, 98969905, 99288553, 99519982, 99684190,
  99797830, 99874390, 99924490, 99956250, 99975690, 99987130, 99993565, 99996997, 99998713,
  99999505, 99999835, 99999955, 99999991, 99999999, 0, 1, 9, 45, 165, 495, 1287, 3003, 6435,
  12870, 24310, 43758, 75574, 125898, 203130, 318450, 486354, 725175, 1057551, 1510795, 2117115,
  2913625, 3942081, 5248297, 6881217, 8891640, 11330616, 14247552, 17688088, 21691824, 26290000,
  31503252, 37339588, 43792749, 50841085, 58447041, 66557313, 75103699, 84004635, 93167371,
  102490707, 111868174, 121191510, 130354246, 139255182, 147801568, 155911840, 163517796,
  170566132, 177019293, 182855629, 188068881, 192667057, 196670793, 200111329, 203028265,
  205467241, 207477664, 209110584, 210416800, 211445256, 212241766, 212848086, 213301330,
  213633706, 213872527, 214040431, 214155751, 214232983, 214283307, 214315123, 214334571,
  214346011, 214352446, 214355878, 214357594, 214358386, 214358716, 214358836, 214358872,
  214358880, 0, 1, 9, 45, 165, 495, 1287, 3003, 6435, 12870, 24310, 43758, 75582, 125962, 203418,
  319410, 488994, 731511, 1071279, 1538251, 2168595, 3005145, 4097665, 5502861, 7284069, 9510568,
  12256488, 15599304, 19617928, 24390432, 29991456, 36489376, 43943328, 52400205, 61891765,
  72432009, 84015009, 96613331, 110177163, 124634223, 139890487, 155831742, 172325934, 189226246,
  206374806, 223606890, 240755450, 257655762, 274149954, 290091209, 305347473, 319804533,
  333368365, 345966687, 357549687, 368089931, 377581491, 386038368, 393492320, 399990240,
  405591264, 410363768, 414382392, 417725208, 420471128, 422697627, 424478835, 425884031,
  426976551, 427813101, 428443445, 428910417, 429250185, 429492702, 429662286, 429778278,
  429855734, 429906114, 429937938, 429957386, 429968826, 429975261, 429978693, 429980409,
  429981201, 429981531, 429981651, 429981687, 429981695, 0, 1, 9, 45, 165, 495, 1287, 3003, 6435,
  12870, 24310, 43758, 75582, 125970, 203482, 319698, 489954, 734151, 1077615, 1551979, 2196051,
  3056625, 4189185, 5658445, 7538661, 9913644, 12876396, 16528312, 20977912, 26339088, 32728872,
  40264752, 49061584, 59228169, 70863585, 84053385, 98865793, 115348051, 133523091, 153386727,
  174905527, 198015490, 222621618, 248598438, 275791494, 304019794, 333079162, 362746410,
  392784210, 422946511, 452984311, 482651559, 511710927, 539939227, 567132283, 593109103,
  617715231, 640825194, 662343994, 682207630, 700382670, 716864928, 731677336, 744867136,
  756502552, 766669137, 775465969, 783001849, 789391633, 794752809, 799202409, 802854325,
  805817077, 808192060, 810072276, 811541536, 812674096, 813534670, 814178742, 814653106,
  814996570, 815240767, 815411023, 815527239, 815604751, 815655139, 815686963, 815706411,
  815717851, 815724286, 815727718, 815729434, 815730226, 815730556, 815730676, 815730712,
  815730720, 0, 1, 9, 45, 165, 495, 1287, 3003, 6435, 12870, 24310, 43758, 75582, 125970, 203490,
  319762, 490242, 735111, 1080255, 1558315, 2209779, 3084081, 4240665, 5749965, 7694245,
  10168236, 13279500, 17148444, 21907900, 27702208, 34685760, 43020984, 52875768, 64420345,
  77823681, 93249429, 110851533, 130769587, 153124075, 178011639, 205500543, 235626522,
  268389226, 303749434, 341627178, 381900882, 424407586, 468944290, 515270418, 563111367,
  612163071, 662097475, 712568779, 763220277, 813691581, 863625985, 912677689, 960518638,
  1006844766, 1051381470, 1093888174, 1134161878, 1172039622, 1207399830, 1240162534, 1270288513,
  1297777417, 1322664981, 1345019469, 1364937523, 1382539627, 1397965375, 1411368711, 1422913288,
  1432768072, 1441103296, 1448086848, 1453881156, 1458640612, 1462509556, 1465620820, 1468094811,
  1470039091, 1471548391, 1472704975, 1473579277, 1474230741, 1474708801, 1475053945, 1475298814,
  1475469294, 1475585566, 1475663086, 1475713474, 1475745298, 1475764746, 1475776186, 1475782621,
  1475786053, 1475787769, 1475788561, 1475788891, 1475789011, 1475789047, 1475789055, 0, 1, 9,
  45, 165, 495, 1287, 3003, 6435, 12870, 24310, 43758, 75582, 125970, 203490, 319770, 490306,
  735399, 1081215, 1560955, 2216115, 3097809, 4268121, 5801445, 7785765, 10323820, 13534092,
  17551548, 22528060, 28632420, 36049860, 44981008, 55640232, 68253345, 83054665, 100283445,
  120179709, 142979551, 168909975, 198183375, 230991775, 267500970, 307844730, 352119250,
  400378050, 452627550, 508823510, 568868490, 632610450, 699842575, 770304375, 843684075,
  919622275, 997716825, 1077528825, 1158589625, 1240408665, 1322481960, 1404301000, 1485361800,
  1565173800, 1643268350, 1719206550, 1792586250, 1863048050, 1930280175, 1994022135, 2054067115,
  2110263075, 0, 1, 9, 45, 165, 495, 1287, 3003, 6435, 12870, 24310, 43758, 75582, 125970,
  203490, 319770, 490314, 735471, 1081567, 1562203, 2219715, 3106785, 4288185, 5842629, 7864701,
  10466820, 13781196, 17961724, 23185756, 29655684, 37600260, 47275572, 58965588, 72982173,
  89664477, 109377613, 132510565, 159473287, 190692975, 226609515, 267670131, 314323278,
  367011846, 426165762, 492194098, 565476814, 646356286, 735128790, 832036134, 937257651,
  1050902787, 1173004539, 1303513963, 1442295937, 1589126329, 1743690685, 1905584517, 2074315236,
  0, 1, 9, 45, 165, 495, 1287, 3003, 6435, 12870, 24310, 43758, 75582, 125970, 203490, 319770,
  490314, 735471, 1081575, 1562267, 2220003, 3107745, 4290825, 5848965, 7878429, 10494276,
  13832676, 18053244, 23341340, 29910276, 38003364, 47895732, 59895828, 74346525, 91625733,
  112146417, 136355913, 164734455, 197792847, 236069235, 280124955, 330539454, 387904302,
  452816334, 525869982, 607648878, 698716830, 799608294, 910818486, 1032793299, 1165919211,
  1310513391, 1466814231, 1634972553, 1815043761, 2006981173]

def kLookup : List Nat := [
  0, 1, 3, 2, 1, 0, 2, 3, 2, 3, 1, 0, 3, 2, 0, 1]

end V34
end Slmodem
