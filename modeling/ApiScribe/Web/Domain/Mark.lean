/-! Marks: characters that combine with the one before them. Marks of different classes may follow one
character in any order, so one order is the normal one, and a character with a mark may have a
character of its own. A text is composed if it is in normal order with every such character used. -/
namespace ApiScribe
namespace Domain

/-- Marks from `first` to `last` of one class; spacing marks take up room of their own. -/
structure MarkRun where
  first : Nat
  last : Nat
  rank : Nat
  spacing : Bool

/-- The runs of marks. What lies between the marks of a run is nothing that a name may hold. -/
def markRuns : List MarkRun :=
  [⟨768, 788, 230, false⟩, ⟨789, 789, 232, false⟩, ⟨790, 793, 220, false⟩, ⟨794, 794, 232, false⟩,
   ⟨795, 795, 216, false⟩, ⟨796, 800, 220, false⟩, ⟨801, 802, 202, false⟩, ⟨803, 806, 220, false⟩,
   ⟨807, 808, 202, false⟩, ⟨809, 819, 220, false⟩, ⟨820, 824, 1, false⟩, ⟨825, 828, 220, false⟩,
   ⟨829, 838, 230, false⟩, ⟨839, 841, 220, false⟩, ⟨842, 844, 230, false⟩, ⟨845, 846, 220, false⟩,
   ⟨848, 850, 230, false⟩, ⟨851, 854, 220, false⟩, ⟨855, 855, 230, false⟩, ⟨856, 856, 232, false⟩,
   ⟨857, 858, 220, false⟩, ⟨859, 859, 230, false⟩, ⟨860, 860, 233, false⟩, ⟨861, 862, 234, false⟩,
   ⟨863, 863, 233, false⟩, ⟨864, 865, 234, false⟩, ⟨866, 866, 233, false⟩, ⟨867, 879, 230, false⟩,
   ⟨1155, 1159, 230, false⟩, ⟨1425, 1425, 220, false⟩, ⟨1426, 1429, 230, false⟩, ⟨1430, 1430, 220,
   false⟩, ⟨1431, 1433, 230, false⟩, ⟨1434, 1434, 222, false⟩, ⟨1435, 1435, 220, false⟩, ⟨1436,
   1441, 230, false⟩, ⟨1442, 1447, 220, false⟩, ⟨1448, 1449, 230, false⟩, ⟨1450, 1450, 220, false⟩,
   ⟨1451, 1452, 230, false⟩, ⟨1453, 1453, 222, false⟩, ⟨1454, 1454, 228, false⟩, ⟨1455, 1455, 230,
   false⟩, ⟨1456, 1456, 10, false⟩, ⟨1457, 1457, 11, false⟩, ⟨1458, 1458, 12, false⟩, ⟨1459, 1459,
   13, false⟩, ⟨1460, 1460, 14, false⟩, ⟨1461, 1461, 15, false⟩, ⟨1462, 1462, 16, false⟩, ⟨1463,
   1463, 17, false⟩, ⟨1464, 1464, 18, false⟩, ⟨1465, 1466, 19, false⟩, ⟨1467, 1467, 20, false⟩,
   ⟨1468, 1468, 21, false⟩, ⟨1469, 1469, 22, false⟩, ⟨1471, 1471, 23, false⟩, ⟨1473, 1473, 24,
   false⟩, ⟨1474, 1474, 25, false⟩, ⟨1476, 1476, 230, false⟩, ⟨1477, 1477, 220, false⟩, ⟨1479, 1479,
   18, false⟩, ⟨1552, 1559, 230, false⟩, ⟨1560, 1560, 30, false⟩, ⟨1561, 1561, 31, false⟩, ⟨1562,
   1562, 32, false⟩, ⟨1611, 1611, 27, false⟩, ⟨1612, 1612, 28, false⟩, ⟨1613, 1613, 29, false⟩,
   ⟨1614, 1614, 30, false⟩, ⟨1615, 1615, 31, false⟩, ⟨1616, 1616, 32, false⟩, ⟨1617, 1617, 33,
   false⟩, ⟨1618, 1618, 34, false⟩, ⟨1619, 1620, 230, false⟩, ⟨1621, 1622, 220, false⟩, ⟨1623, 1627,
   230, false⟩, ⟨1628, 1628, 220, false⟩, ⟨1629, 1630, 230, false⟩, ⟨1631, 1631, 220, false⟩, ⟨1648,
   1648, 35, false⟩, ⟨1750, 1762, 230, false⟩, ⟨1763, 1763, 220, false⟩, ⟨1764, 1764, 230, false⟩,
   ⟨1767, 1768, 230, false⟩, ⟨1770, 1770, 220, false⟩, ⟨1771, 1772, 230, false⟩, ⟨1773, 1773, 220,
   false⟩, ⟨1809, 1809, 36, false⟩, ⟨1840, 1840, 230, false⟩, ⟨1841, 1841, 220, false⟩, ⟨1842, 1843,
   230, false⟩, ⟨1844, 1844, 220, false⟩, ⟨1845, 1846, 230, false⟩, ⟨1847, 1849, 220, false⟩, ⟨1850,
   1850, 230, false⟩, ⟨1851, 1852, 220, false⟩, ⟨1853, 1853, 230, false⟩, ⟨1854, 1854, 220, false⟩,
   ⟨1855, 1857, 230, false⟩, ⟨1858, 1858, 220, false⟩, ⟨1859, 1859, 230, false⟩, ⟨1860, 1860, 220,
   false⟩, ⟨1861, 1861, 230, false⟩, ⟨1862, 1862, 220, false⟩, ⟨1863, 1863, 230, false⟩, ⟨1864,
   1864, 220, false⟩, ⟨1865, 1866, 230, false⟩, ⟨1958, 1968, 0, false⟩, ⟨2027, 2033, 230, false⟩,
   ⟨2034, 2034, 220, false⟩, ⟨2035, 2035, 230, false⟩, ⟨2045, 2045, 220, false⟩, ⟨2070, 2073, 230,
   false⟩, ⟨2075, 2083, 230, false⟩, ⟨2085, 2087, 230, false⟩, ⟨2089, 2093, 230, false⟩, ⟨2137,
   2139, 220, false⟩, ⟨2200, 2200, 230, false⟩, ⟨2201, 2203, 220, false⟩, ⟨2204, 2207, 230, false⟩,
   ⟨2250, 2254, 230, false⟩, ⟨2255, 2259, 220, false⟩, ⟨2260, 2273, 230, false⟩, ⟨2275, 2275, 220,
   false⟩, ⟨2276, 2277, 230, false⟩, ⟨2278, 2278, 220, false⟩, ⟨2279, 2280, 230, false⟩, ⟨2281,
   2281, 220, false⟩, ⟨2282, 2284, 230, false⟩, ⟨2285, 2287, 220, false⟩, ⟨2288, 2288, 27, false⟩,
   ⟨2289, 2289, 28, false⟩, ⟨2290, 2290, 29, false⟩, ⟨2291, 2293, 230, false⟩, ⟨2294, 2294, 220,
   false⟩, ⟨2295, 2296, 230, false⟩, ⟨2297, 2298, 220, false⟩, ⟨2299, 2303, 230, false⟩, ⟨2304,
   2306, 0, false⟩, ⟨2307, 2307, 0, true⟩, ⟨2362, 2362, 0, false⟩, ⟨2363, 2363, 0, true⟩, ⟨2364,
   2364, 7, false⟩, ⟨2366, 2368, 0, true⟩, ⟨2369, 2376, 0, false⟩, ⟨2377, 2380, 0, true⟩, ⟨2381,
   2381, 9, false⟩, ⟨2382, 2383, 0, true⟩, ⟨2385, 2385, 230, false⟩, ⟨2386, 2386, 220, false⟩,
   ⟨2387, 2388, 230, false⟩, ⟨2389, 2391, 0, false⟩, ⟨2402, 2403, 0, false⟩, ⟨2433, 2433, 0, false⟩,
   ⟨2434, 2435, 0, true⟩, ⟨2492, 2492, 7, false⟩, ⟨2494, 2496, 0, true⟩, ⟨2497, 2500, 0, false⟩,
   ⟨2503, 2508, 0, true⟩, ⟨2509, 2509, 9, false⟩, ⟨2519, 2519, 0, true⟩, ⟨2530, 2531, 0, false⟩,
   ⟨2558, 2558, 230, false⟩, ⟨2561, 2562, 0, false⟩, ⟨2563, 2563, 0, true⟩, ⟨2620, 2620, 7, false⟩,
   ⟨2622, 2624, 0, true⟩, ⟨2625, 2636, 0, false⟩, ⟨2637, 2637, 9, false⟩, ⟨2641, 2641, 0, false⟩,
   ⟨2672, 2673, 0, false⟩, ⟨2677, 2690, 0, false⟩, ⟨2691, 2691, 0, true⟩, ⟨2748, 2748, 7, false⟩,
   ⟨2750, 2752, 0, true⟩, ⟨2753, 2760, 0, false⟩, ⟨2761, 2764, 0, true⟩, ⟨2765, 2765, 9, false⟩,
   ⟨2786, 2787, 0, false⟩, ⟨2810, 2817, 0, false⟩, ⟨2818, 2819, 0, true⟩, ⟨2876, 2876, 7, false⟩,
   ⟨2878, 2878, 0, true⟩, ⟨2879, 2879, 0, false⟩, ⟨2880, 2880, 0, true⟩, ⟨2881, 2884, 0, false⟩,
   ⟨2887, 2892, 0, true⟩, ⟨2893, 2893, 9, false⟩, ⟨2901, 2902, 0, false⟩, ⟨2903, 2903, 0, true⟩,
   ⟨2914, 2915, 0, false⟩, ⟨2946, 2946, 0, false⟩, ⟨3006, 3007, 0, true⟩, ⟨3008, 3008, 0, false⟩,
   ⟨3009, 3020, 0, true⟩, ⟨3021, 3021, 9, false⟩, ⟨3031, 3031, 0, true⟩, ⟨3072, 3072, 0, false⟩,
   ⟨3073, 3075, 0, true⟩, ⟨3076, 3076, 0, false⟩, ⟨3132, 3132, 7, false⟩, ⟨3134, 3136, 0, false⟩,
   ⟨3137, 3140, 0, true⟩, ⟨3142, 3148, 0, false⟩, ⟨3149, 3149, 9, false⟩, ⟨3157, 3157, 84, false⟩,
   ⟨3158, 3158, 91, false⟩, ⟨3170, 3171, 0, false⟩, ⟨3201, 3201, 0, false⟩, ⟨3202, 3203, 0, true⟩,
   ⟨3260, 3260, 7, false⟩, ⟨3262, 3275, 0, true⟩, ⟨3276, 3276, 0, false⟩, ⟨3277, 3277, 9, false⟩,
   ⟨3285, 3286, 0, true⟩, ⟨3298, 3299, 0, false⟩, ⟨3328, 3329, 0, false⟩, ⟨3330, 3331, 0, true⟩,
   ⟨3387, 3388, 9, false⟩, ⟨3390, 3392, 0, true⟩, ⟨3393, 3396, 0, false⟩, ⟨3398, 3404, 0, true⟩,
   ⟨3405, 3405, 9, false⟩, ⟨3415, 3415, 0, true⟩, ⟨3426, 3427, 0, false⟩, ⟨3457, 3457, 0, false⟩,
   ⟨3458, 3459, 0, true⟩, ⟨3530, 3530, 9, false⟩, ⟨3535, 3537, 0, true⟩, ⟨3538, 3542, 0, false⟩,
   ⟨3544, 3551, 0, true⟩, ⟨3570, 3571, 0, true⟩, ⟨3633, 3633, 0, false⟩, ⟨3636, 3639, 0, false⟩,
   ⟨3640, 3641, 103, false⟩, ⟨3642, 3642, 9, false⟩, ⟨3655, 3655, 0, false⟩, ⟨3656, 3659, 107,
   false⟩, ⟨3660, 3662, 0, false⟩, ⟨3761, 3761, 0, false⟩, ⟨3764, 3767, 0, false⟩, ⟨3768, 3769, 118,
   false⟩, ⟨3770, 3770, 9, false⟩, ⟨3771, 3772, 0, false⟩, ⟨3784, 3787, 122, false⟩, ⟨3788, 3789, 0,
   false⟩, ⟨3864, 3865, 220, false⟩, ⟨3893, 3895, 220, false⟩, ⟨3897, 3897, 216, false⟩, ⟨3902,
   3903, 0, true⟩, ⟨3953, 3953, 129, false⟩, ⟨3954, 3954, 130, false⟩, ⟨3956, 3956, 132, false⟩,
   ⟨3962, 3965, 130, false⟩, ⟨3966, 3966, 0, false⟩, ⟨3967, 3967, 0, true⟩, ⟨3968, 3968, 130,
   false⟩, ⟨3970, 3971, 230, false⟩, ⟨3972, 3972, 9, false⟩, ⟨3974, 3975, 230, false⟩, ⟨3981, 4028,
   0, false⟩, ⟨4038, 4038, 220, false⟩, ⟨4139, 4140, 0, true⟩, ⟨4141, 4144, 0, false⟩, ⟨4145, 4145,
   0, true⟩, ⟨4146, 4150, 0, false⟩, ⟨4151, 4151, 7, false⟩, ⟨4152, 4152, 0, true⟩, ⟨4153, 4154, 9,
   false⟩, ⟨4155, 4156, 0, true⟩, ⟨4157, 4158, 0, false⟩, ⟨4182, 4183, 0, true⟩, ⟨4184, 4185, 0,
   false⟩, ⟨4190, 4192, 0, false⟩, ⟨4194, 4196, 0, true⟩, ⟨4199, 4205, 0, true⟩, ⟨4209, 4212, 0,
   false⟩, ⟨4226, 4226, 0, false⟩, ⟨4227, 4228, 0, true⟩, ⟨4229, 4230, 0, false⟩, ⟨4231, 4236, 0,
   true⟩, ⟨4237, 4237, 220, false⟩, ⟨4239, 4239, 0, true⟩, ⟨4250, 4252, 0, true⟩, ⟨4253, 4253, 0,
   false⟩, ⟨4957, 4959, 230, false⟩, ⟨5906, 5907, 0, false⟩, ⟨5908, 5908, 9, false⟩, ⟨5909, 5909, 9,
   true⟩, ⟨5938, 5939, 0, false⟩, ⟨5940, 5940, 9, true⟩, ⟨5970, 5971, 0, false⟩, ⟨6002, 6003, 0,
   false⟩, ⟨6070, 6070, 0, true⟩, ⟨6071, 6077, 0, false⟩, ⟨6078, 6085, 0, true⟩, ⟨6086, 6086, 0,
   false⟩, ⟨6087, 6088, 0, true⟩, ⟨6089, 6097, 0, false⟩, ⟨6098, 6098, 9, false⟩, ⟨6099, 6099, 0,
   false⟩, ⟨6109, 6109, 230, false⟩, ⟨6277, 6278, 0, false⟩, ⟨6313, 6313, 228, false⟩, ⟨6432, 6434,
   0, false⟩, ⟨6435, 6438, 0, true⟩, ⟨6439, 6440, 0, false⟩, ⟨6441, 6449, 0, true⟩, ⟨6450, 6450, 0,
   false⟩, ⟨6451, 6456, 0, true⟩, ⟨6457, 6457, 222, false⟩, ⟨6458, 6458, 230, false⟩, ⟨6459, 6459,
   220, false⟩, ⟨6679, 6679, 230, false⟩, ⟨6680, 6680, 220, false⟩, ⟨6681, 6682, 0, true⟩, ⟨6683,
   6683, 0, false⟩, ⟨6741, 6741, 0, true⟩, ⟨6742, 6742, 0, false⟩, ⟨6743, 6743, 0, true⟩, ⟨6744,
   6750, 0, false⟩, ⟨6752, 6752, 9, false⟩, ⟨6753, 6753, 0, true⟩, ⟨6754, 6754, 0, false⟩, ⟨6755,
   6756, 0, true⟩, ⟨6757, 6764, 0, false⟩, ⟨6765, 6770, 0, true⟩, ⟨6771, 6772, 0, false⟩, ⟨6773,
   6780, 230, false⟩, ⟨6783, 6783, 220, false⟩, ⟨6832, 6836, 230, false⟩, ⟨6837, 6842, 220, false⟩,
   ⟨6843, 6844, 230, false⟩, ⟨6845, 6848, 220, false⟩, ⟨6849, 6850, 230, false⟩, ⟨6851, 6852, 220,
   false⟩, ⟨6853, 6857, 230, false⟩, ⟨6858, 6858, 220, false⟩, ⟨6859, 6862, 230, false⟩, ⟨6912,
   6915, 0, false⟩, ⟨6916, 6916, 0, true⟩, ⟨6964, 6964, 7, false⟩, ⟨6965, 6965, 0, true⟩, ⟨6966,
   6970, 0, false⟩, ⟨6971, 6971, 0, true⟩, ⟨6972, 6972, 0, false⟩, ⟨6973, 6977, 0, true⟩, ⟨6978,
   6978, 0, false⟩, ⟨6979, 6979, 0, true⟩, ⟨6980, 6980, 9, true⟩, ⟨7019, 7019, 230, false⟩, ⟨7020,
   7020, 220, false⟩, ⟨7021, 7027, 230, false⟩, ⟨7040, 7041, 0, false⟩, ⟨7042, 7042, 0, true⟩,
   ⟨7073, 7073, 0, true⟩, ⟨7074, 7077, 0, false⟩, ⟨7078, 7079, 0, true⟩, ⟨7080, 7081, 0, false⟩,
   ⟨7082, 7082, 9, true⟩, ⟨7083, 7083, 9, false⟩, ⟨7084, 7085, 0, false⟩, ⟨7142, 7142, 7, false⟩,
   ⟨7143, 7143, 0, true⟩, ⟨7144, 7145, 0, false⟩, ⟨7146, 7148, 0, true⟩, ⟨7149, 7149, 0, false⟩,
   ⟨7150, 7150, 0, true⟩, ⟨7151, 7153, 0, false⟩, ⟨7154, 7155, 9, true⟩, ⟨7204, 7211, 0, true⟩,
   ⟨7212, 7219, 0, false⟩, ⟨7220, 7221, 0, true⟩, ⟨7222, 7222, 0, false⟩, ⟨7223, 7223, 7, false⟩,
   ⟨7376, 7378, 230, false⟩, ⟨7380, 7380, 1, false⟩, ⟨7381, 7385, 220, false⟩, ⟨7386, 7387, 230,
   false⟩, ⟨7388, 7391, 220, false⟩, ⟨7392, 7392, 230, false⟩, ⟨7393, 7393, 0, true⟩, ⟨7394, 7400,
   1, false⟩, ⟨7405, 7405, 220, false⟩, ⟨7412, 7412, 230, false⟩, ⟨7415, 7415, 0, true⟩, ⟨7416,
   7417, 230, false⟩, ⟨7616, 7617, 230, false⟩, ⟨7618, 7618, 220, false⟩, ⟨7619, 7625, 230, false⟩,
   ⟨7626, 7626, 220, false⟩, ⟨7627, 7628, 230, false⟩, ⟨7629, 7629, 234, false⟩, ⟨7630, 7630, 214,
   false⟩, ⟨7631, 7631, 220, false⟩, ⟨7632, 7632, 202, false⟩, ⟨7633, 7669, 230, false⟩, ⟨7670,
   7670, 232, false⟩, ⟨7671, 7672, 228, false⟩, ⟨7673, 7673, 220, false⟩, ⟨7674, 7674, 218, false⟩,
   ⟨7675, 7675, 230, false⟩, ⟨7676, 7676, 233, false⟩, ⟨7677, 7677, 220, false⟩, ⟨7678, 7678, 230,
   false⟩, ⟨7679, 7679, 220, false⟩, ⟨11503, 11505, 230, false⟩, ⟨11647, 11647, 9, false⟩, ⟨11744,
   11775, 230, false⟩, ⟨12330, 12330, 218, false⟩, ⟨12331, 12331, 228, false⟩, ⟨12332, 12332, 232,
   false⟩, ⟨12333, 12333, 222, false⟩, ⟨12441, 12442, 8, false⟩, ⟨42607, 42621, 230, false⟩, ⟨42654,
   42655, 230, false⟩, ⟨42736, 42737, 230, false⟩, ⟨43010, 43010, 0, false⟩, ⟨43014, 43014, 9,
   false⟩, ⟨43019, 43019, 0, false⟩, ⟨43043, 43044, 0, true⟩, ⟨43045, 43046, 0, false⟩, ⟨43047,
   43047, 0, true⟩, ⟨43052, 43052, 9, false⟩, ⟨43136, 43137, 0, true⟩, ⟨43188, 43203, 0, true⟩,
   ⟨43204, 43204, 9, false⟩, ⟨43205, 43205, 0, false⟩, ⟨43232, 43249, 230, false⟩, ⟨43263, 43263, 0,
   false⟩, ⟨43302, 43306, 0, false⟩, ⟨43307, 43309, 220, false⟩, ⟨43335, 43345, 0, false⟩, ⟨43346,
   43346, 0, true⟩, ⟨43347, 43347, 9, true⟩, ⟨43392, 43394, 0, false⟩, ⟨43395, 43395, 0, true⟩,
   ⟨43443, 43443, 7, false⟩, ⟨43444, 43445, 0, true⟩, ⟨43446, 43449, 0, false⟩, ⟨43450, 43451, 0,
   true⟩, ⟨43452, 43453, 0, false⟩, ⟨43454, 43455, 0, true⟩, ⟨43456, 43456, 9, true⟩, ⟨43493, 43493,
   0, false⟩, ⟨43561, 43566, 0, false⟩, ⟨43567, 43568, 0, true⟩, ⟨43569, 43570, 0, false⟩, ⟨43571,
   43572, 0, true⟩, ⟨43573, 43574, 0, false⟩, ⟨43587, 43587, 0, false⟩, ⟨43596, 43596, 0, false⟩,
   ⟨43597, 43597, 0, true⟩, ⟨43643, 43643, 0, true⟩, ⟨43644, 43644, 0, false⟩, ⟨43645, 43645, 0,
   true⟩, ⟨43696, 43696, 230, false⟩, ⟨43698, 43699, 230, false⟩, ⟨43700, 43700, 220, false⟩,
   ⟨43703, 43704, 230, false⟩, ⟨43710, 43711, 230, false⟩, ⟨43713, 43713, 230, false⟩, ⟨43755,
   43755, 0, true⟩, ⟨43756, 43757, 0, false⟩, ⟨43758, 43759, 0, true⟩, ⟨43765, 43765, 0, true⟩,
   ⟨43766, 43766, 9, false⟩, ⟨44003, 44004, 0, true⟩, ⟨44005, 44005, 0, false⟩, ⟨44006, 44007, 0,
   true⟩, ⟨44008, 44008, 0, false⟩, ⟨44009, 44012, 0, true⟩, ⟨44013, 44013, 9, false⟩, ⟨64286,
   64286, 26, false⟩, ⟨65056, 65062, 230, false⟩, ⟨65063, 65069, 220, false⟩, ⟨65070, 65071, 230,
   false⟩, ⟨66045, 66045, 220, false⟩, ⟨66272, 66272, 220, false⟩, ⟨66422, 66426, 230, false⟩,
   ⟨68097, 68108, 0, false⟩, ⟨68109, 68109, 220, false⟩, ⟨68110, 68110, 0, false⟩, ⟨68111, 68111,
   230, false⟩, ⟨68152, 68152, 230, false⟩, ⟨68153, 68153, 1, false⟩, ⟨68154, 68154, 220, false⟩,
   ⟨68159, 68159, 9, false⟩, ⟨68325, 68325, 230, false⟩, ⟨68326, 68326, 220, false⟩, ⟨68900, 68903,
   230, false⟩, ⟨69291, 69292, 230, false⟩, ⟨69446, 69447, 220, false⟩, ⟨69448, 69450, 230, false⟩,
   ⟨69451, 69451, 220, false⟩, ⟨69452, 69452, 230, false⟩, ⟨69453, 69456, 220, false⟩, ⟨69506,
   69506, 230, false⟩, ⟨69507, 69507, 220, false⟩, ⟨69508, 69508, 230, false⟩, ⟨69509, 69509, 220,
   false⟩, ⟨69632, 69632, 0, true⟩, ⟨69633, 69633, 0, false⟩, ⟨69634, 69634, 0, true⟩, ⟨69688,
   69701, 0, false⟩, ⟨69702, 69702, 9, false⟩, ⟨69744, 69744, 9, false⟩, ⟨69747, 69748, 0, false⟩,
   ⟨69759, 69759, 9, false⟩, ⟨69760, 69761, 0, false⟩, ⟨69762, 69762, 0, true⟩, ⟨69808, 69810, 0,
   true⟩, ⟨69811, 69814, 0, false⟩, ⟨69815, 69816, 0, true⟩, ⟨69817, 69817, 9, false⟩, ⟨69818,
   69818, 7, false⟩, ⟨69826, 69826, 0, false⟩, ⟨69888, 69890, 230, false⟩, ⟨69927, 69931, 0, false⟩,
   ⟨69932, 69932, 0, true⟩, ⟨69933, 69938, 0, false⟩, ⟨69939, 69940, 9, false⟩, ⟨69957, 69958, 0,
   true⟩, ⟨70003, 70003, 7, false⟩, ⟨70016, 70017, 0, false⟩, ⟨70018, 70018, 0, true⟩, ⟨70067,
   70069, 0, true⟩, ⟨70070, 70078, 0, false⟩, ⟨70079, 70079, 0, true⟩, ⟨70080, 70080, 9, true⟩,
   ⟨70089, 70089, 0, false⟩, ⟨70090, 70090, 7, false⟩, ⟨70091, 70092, 0, false⟩, ⟨70094, 70094, 0,
   true⟩, ⟨70095, 70095, 0, false⟩, ⟨70188, 70190, 0, true⟩, ⟨70191, 70193, 0, false⟩, ⟨70194,
   70195, 0, true⟩, ⟨70196, 70196, 0, false⟩, ⟨70197, 70197, 9, true⟩, ⟨70198, 70198, 7, false⟩,
   ⟨70199, 70206, 0, false⟩, ⟨70367, 70367, 0, false⟩, ⟨70368, 70370, 0, true⟩, ⟨70371, 70376, 0,
   false⟩, ⟨70377, 70377, 7, false⟩, ⟨70378, 70378, 9, false⟩, ⟨70400, 70401, 0, false⟩, ⟨70402,
   70403, 0, true⟩, ⟨70459, 70460, 7, false⟩, ⟨70462, 70463, 0, true⟩, ⟨70464, 70464, 0, false⟩,
   ⟨70465, 70476, 0, true⟩, ⟨70477, 70477, 9, true⟩, ⟨70487, 70487, 0, true⟩, ⟨70498, 70499, 0,
   true⟩, ⟨70502, 70516, 230, false⟩, ⟨70709, 70711, 0, true⟩, ⟨70712, 70719, 0, false⟩, ⟨70720,
   70721, 0, true⟩, ⟨70722, 70722, 9, false⟩, ⟨70723, 70724, 0, false⟩, ⟨70725, 70725, 0, true⟩,
   ⟨70726, 70726, 7, false⟩, ⟨70750, 70750, 230, false⟩, ⟨70832, 70834, 0, true⟩, ⟨70835, 70840, 0,
   false⟩, ⟨70841, 70841, 0, true⟩, ⟨70842, 70842, 0, false⟩, ⟨70843, 70846, 0, true⟩, ⟨70847,
   70848, 0, false⟩, ⟨70849, 70849, 0, true⟩, ⟨70850, 70850, 9, false⟩, ⟨70851, 70851, 7, false⟩,
   ⟨71087, 71089, 0, true⟩, ⟨71090, 71093, 0, false⟩, ⟨71096, 71099, 0, true⟩, ⟨71100, 71101, 0,
   false⟩, ⟨71102, 71102, 0, true⟩, ⟨71103, 71103, 9, false⟩, ⟨71104, 71104, 7, false⟩, ⟨71132,
   71133, 0, false⟩, ⟨71216, 71218, 0, true⟩, ⟨71219, 71226, 0, false⟩, ⟨71227, 71228, 0, true⟩,
   ⟨71229, 71229, 0, false⟩, ⟨71230, 71230, 0, true⟩, ⟨71231, 71231, 9, false⟩, ⟨71232, 71232, 0,
   false⟩, ⟨71339, 71339, 0, false⟩, ⟨71340, 71340, 0, true⟩, ⟨71341, 71341, 0, false⟩, ⟨71342,
   71343, 0, true⟩, ⟨71344, 71349, 0, false⟩, ⟨71350, 71350, 9, true⟩, ⟨71351, 71351, 7, false⟩,
   ⟨71453, 71455, 0, false⟩, ⟨71456, 71457, 0, true⟩, ⟨71458, 71461, 0, false⟩, ⟨71462, 71462, 0,
   true⟩, ⟨71463, 71466, 0, false⟩, ⟨71467, 71467, 9, false⟩, ⟨71724, 71726, 0, true⟩, ⟨71727,
   71735, 0, false⟩, ⟨71736, 71736, 0, true⟩, ⟨71737, 71737, 9, false⟩, ⟨71738, 71738, 7, false⟩,
   ⟨71984, 71992, 0, true⟩, ⟨71995, 71996, 0, false⟩, ⟨71997, 71997, 9, true⟩, ⟨71998, 71998, 9,
   false⟩, ⟨72000, 72000, 0, true⟩, ⟨72002, 72002, 0, true⟩, ⟨72003, 72003, 7, false⟩, ⟨72145,
   72147, 0, true⟩, ⟨72148, 72155, 0, false⟩, ⟨72156, 72159, 0, true⟩, ⟨72160, 72160, 9, false⟩,
   ⟨72164, 72164, 0, true⟩, ⟨72193, 72198, 0, false⟩, ⟨72199, 72200, 0, true⟩, ⟨72201, 72202, 0,
   false⟩, ⟨72243, 72243, 0, false⟩, ⟨72244, 72244, 9, false⟩, ⟨72245, 72248, 0, false⟩, ⟨72249,
   72249, 0, true⟩, ⟨72251, 72254, 0, false⟩, ⟨72263, 72263, 9, false⟩, ⟨72273, 72278, 0, false⟩,
   ⟨72279, 72280, 0, true⟩, ⟨72281, 72283, 0, false⟩, ⟨72330, 72342, 0, false⟩, ⟨72343, 72343, 0,
   true⟩, ⟨72344, 72344, 0, false⟩, ⟨72345, 72345, 9, false⟩, ⟨72751, 72751, 0, true⟩, ⟨72752,
   72765, 0, false⟩, ⟨72766, 72766, 0, true⟩, ⟨72767, 72767, 9, true⟩, ⟨72850, 72871, 0, false⟩,
   ⟨72873, 72873, 0, true⟩, ⟨72874, 72880, 0, false⟩, ⟨72881, 72881, 0, true⟩, ⟨72882, 72883, 0,
   false⟩, ⟨72884, 72884, 0, true⟩, ⟨72885, 72886, 0, false⟩, ⟨73009, 73025, 0, false⟩, ⟨73026,
   73026, 7, false⟩, ⟨73027, 73027, 0, false⟩, ⟨73028, 73029, 9, false⟩, ⟨73031, 73031, 0, false⟩,
   ⟨73098, 73102, 0, true⟩, ⟨73104, 73105, 0, false⟩, ⟨73107, 73108, 0, true⟩, ⟨73109, 73109, 0,
   false⟩, ⟨73110, 73110, 0, true⟩, ⟨73111, 73111, 9, false⟩, ⟨73459, 73460, 0, false⟩, ⟨73461,
   73462, 0, true⟩, ⟨92912, 92916, 1, false⟩, ⟨92976, 92982, 230, false⟩, ⟨94031, 94031, 0, false⟩,
   ⟨94033, 94087, 0, true⟩, ⟨94095, 94098, 0, false⟩, ⟨94180, 94180, 0, false⟩, ⟨94192, 94193, 6,
   true⟩, ⟨113821, 113821, 0, false⟩, ⟨113822, 113822, 1, false⟩, ⟨118528, 121519, 0, false⟩,
   ⟨122880, 122922, 230, false⟩, ⟨123184, 123190, 230, false⟩, ⟨123566, 123566, 230, false⟩,
   ⟨123628, 123631, 230, false⟩, ⟨125136, 125142, 220, false⟩, ⟨125252, 125257, 230, false⟩,
   ⟨125258, 125258, 7, false⟩]

/-- The run of a mark. -/
def markRun? (c : Char) : Option MarkRun :=
  markRuns.find? fun r => r.first ≤ c.toNat && c.toNat ≤ r.last

/-- Whether a character is a mark. -/
def isMark (c : Char) : Bool := (markRun? c).isSome

/-- Whether a character is a mark that takes up no room. -/
def isBareMark (c : Char) : Bool := (markRun? c).any (!·.spacing)

/-- The class by which a mark is ordered among marks; zero for what is not ordered. -/
def rank (c : Char) : Nat := ((markRun? c).map (·.rank)).getD 0

/-- The class of marks that join letters. -/
def joinerRank : Nat := 9

/-- Code points of characters that stand for a character with a mark, with the two. -/
def compounds : List (Nat × Nat × Nat) :=
  [(224, 97, 768), (225, 97, 769), (226, 97, 770), (227, 97, 771), (228, 97, 776), (229, 97, 778),
   (231, 99, 807), (232, 101, 768), (233, 101, 769), (234, 101, 770), (235, 101, 776), (236, 105,
   768), (237, 105, 769), (238, 105, 770), (239, 105, 776), (241, 110, 771), (242, 111, 768), (243,
   111, 769), (244, 111, 770), (245, 111, 771), (246, 111, 776), (249, 117, 768), (250, 117, 769),
   (251, 117, 770), (252, 117, 776), (253, 121, 769), (255, 121, 776), (257, 97, 772), (259, 97,
   774), (261, 97, 808), (263, 99, 769), (265, 99, 770), (267, 99, 775), (269, 99, 780), (271, 100,
   780), (275, 101, 772), (277, 101, 774), (279, 101, 775), (281, 101, 808), (283, 101, 780), (285,
   103, 770), (287, 103, 774), (289, 103, 775), (291, 103, 807), (293, 104, 770), (297, 105, 771),
   (299, 105, 772), (301, 105, 774), (303, 105, 808), (309, 106, 770), (311, 107, 807), (314, 108,
   769), (316, 108, 807), (318, 108, 780), (324, 110, 769), (326, 110, 807), (328, 110, 780), (333,
   111, 772), (335, 111, 774), (337, 111, 779), (341, 114, 769), (343, 114, 807), (345, 114, 780),
   (347, 115, 769), (349, 115, 770), (351, 115, 807), (353, 115, 780), (355, 116, 807), (357, 116,
   780), (361, 117, 771), (363, 117, 772), (365, 117, 774), (367, 117, 778), (369, 117, 779), (371,
   117, 808), (373, 119, 770), (375, 121, 770), (378, 122, 769), (380, 122, 775), (382, 122, 780),
   (417, 111, 795), (432, 117, 795), (462, 97, 780), (464, 105, 780), (466, 111, 780), (468, 117,
   780), (470, 252, 772), (472, 252, 769), (474, 252, 780), (476, 252, 768), (479, 228, 772), (481,
   551, 772), (483, 230, 772), (487, 103, 780), (489, 107, 780), (491, 111, 808), (493, 491, 772),
   (495, 658, 780), (496, 106, 780), (501, 103, 769), (505, 110, 768), (507, 229, 769), (509, 230,
   769), (511, 248, 769), (513, 97, 783), (515, 97, 785), (517, 101, 783), (519, 101, 785), (521,
   105, 783), (523, 105, 785), (525, 111, 783), (527, 111, 785), (529, 114, 783), (531, 114, 785),
   (533, 117, 783), (535, 117, 785), (537, 115, 806), (539, 116, 806), (543, 104, 780), (551, 97,
   775), (553, 101, 807), (555, 246, 772), (557, 245, 772), (559, 111, 775), (561, 559, 772), (563,
   121, 772), (912, 970, 769), (940, 945, 769), (941, 949, 769), (942, 951, 769), (943, 953, 769),
   (944, 971, 769), (970, 953, 776), (971, 965, 776), (972, 959, 769), (973, 965, 769), (974, 969,
   769), (1081, 1080, 774), (1104, 1077, 768), (1105, 1077, 776), (1107, 1075, 769), (1111, 1110,
   776), (1116, 1082, 769), (1117, 1080, 768), (1118, 1091, 774), (1143, 1141, 783), (1218, 1078,
   774), (1233, 1072, 774), (1235, 1072, 776), (1239, 1077, 774), (1243, 1241, 776), (1245, 1078,
   776), (1247, 1079, 776), (1251, 1080, 772), (1253, 1080, 776), (1255, 1086, 776), (1259, 1257,
   776), (1261, 1101, 776), (1263, 1091, 772), (1265, 1091, 776), (1267, 1091, 779), (1269, 1095,
   776), (1273, 1099, 776), (1570, 1575, 1619), (1571, 1575, 1620), (1572, 1608, 1620), (1573, 1575,
   1621), (1574, 1610, 1620), (1728, 1749, 1620), (1730, 1729, 1620), (1747, 1746, 1620), (2345,
   2344, 2364), (2353, 2352, 2364), (2356, 2355, 2364), (2507, 2503, 2494), (2508, 2503, 2519),
   (2888, 2887, 2902), (2891, 2887, 2878), (2892, 2887, 2903), (2964, 2962, 3031), (3018, 3014,
   3006), (3019, 3015, 3006), (3020, 3014, 3031), (3144, 3142, 3158), (3264, 3263, 3285), (3271,
   3270, 3285), (3272, 3270, 3286), (3274, 3270, 3266), (3275, 3274, 3285), (3402, 3398, 3390),
   (3403, 3399, 3390), (3404, 3398, 3415), (3546, 3545, 3530), (3548, 3545, 3535), (3549, 3548,
   3530), (3550, 3545, 3551), (4134, 4133, 4142), (6918, 6917, 6965), (6920, 6919, 6965), (6922,
   6921, 6965), (6924, 6923, 6965), (6926, 6925, 6965), (6930, 6929, 6965), (6971, 6970, 6965),
   (6973, 6972, 6965), (6976, 6974, 6965), (6977, 6975, 6965), (6979, 6978, 6965), (7681, 97, 805),
   (7683, 98, 775), (7685, 98, 803), (7687, 98, 817), (7689, 231, 769), (7691, 100, 775), (7693,
   100, 803), (7695, 100, 817), (7697, 100, 807), (7699, 100, 813), (7701, 275, 768), (7703, 275,
   769), (7705, 101, 813), (7707, 101, 816), (7709, 553, 774), (7711, 102, 775), (7713, 103, 772),
   (7715, 104, 775), (7717, 104, 803), (7719, 104, 776), (7721, 104, 807), (7723, 104, 814), (7725,
   105, 816), (7727, 239, 769), (7729, 107, 769), (7731, 107, 803), (7733, 107, 817), (7735, 108,
   803), (7737, 7735, 772), (7739, 108, 817), (7741, 108, 813), (7743, 109, 769), (7745, 109, 775),
   (7747, 109, 803), (7749, 110, 775), (7751, 110, 803), (7753, 110, 817), (7755, 110, 813), (7757,
   245, 769), (7759, 245, 776), (7761, 333, 768), (7763, 333, 769), (7765, 112, 769), (7767, 112,
   775), (7769, 114, 775), (7771, 114, 803), (7773, 7771, 772), (7775, 114, 817), (7777, 115, 775),
   (7779, 115, 803), (7781, 347, 775), (7783, 353, 775), (7785, 7779, 775), (7787, 116, 775), (7789,
   116, 803), (7791, 116, 817), (7793, 116, 813), (7795, 117, 804), (7797, 117, 816), (7799, 117,
   813), (7801, 361, 769), (7803, 363, 776), (7805, 118, 771), (7807, 118, 803), (7809, 119, 768),
   (7811, 119, 769), (7813, 119, 776), (7815, 119, 775), (7817, 119, 803), (7819, 120, 775), (7821,
   120, 776), (7823, 121, 775), (7825, 122, 770), (7827, 122, 803), (7829, 122, 817), (7830, 104,
   817), (7831, 116, 776), (7832, 119, 778), (7833, 121, 778), (7841, 97, 803), (7843, 97, 777),
   (7845, 226, 769), (7847, 226, 768), (7849, 226, 777), (7851, 226, 771), (7853, 7841, 770), (7855,
   259, 769), (7857, 259, 768), (7859, 259, 777), (7861, 259, 771), (7863, 7841, 774), (7865, 101,
   803), (7867, 101, 777), (7869, 101, 771), (7871, 234, 769), (7873, 234, 768), (7875, 234, 777),
   (7877, 234, 771), (7879, 7865, 770), (7881, 105, 777), (7883, 105, 803), (7885, 111, 803), (7887,
   111, 777), (7889, 244, 769), (7891, 244, 768), (7893, 244, 777), (7895, 244, 771), (7897, 7885,
   770), (7899, 417, 769), (7901, 417, 768), (7903, 417, 777), (7905, 417, 771), (7907, 417, 803),
   (7909, 117, 803), (7911, 117, 777), (7913, 432, 769), (7915, 432, 768), (7917, 432, 777), (7919,
   432, 771), (7921, 432, 803), (7923, 121, 768), (7925, 121, 803), (7927, 121, 777), (7929, 121,
   771), (7936, 945, 787), (7937, 945, 788), (7938, 7936, 768), (7939, 7937, 768), (7940, 7936,
   769), (7941, 7937, 769), (7942, 7936, 834), (7943, 7937, 834), (7952, 949, 787), (7953, 949,
   788), (7954, 7952, 768), (7955, 7953, 768), (7956, 7952, 769), (7957, 7953, 769), (7968, 951,
   787), (7969, 951, 788), (7970, 7968, 768), (7971, 7969, 768), (7972, 7968, 769), (7973, 7969,
   769), (7974, 7968, 834), (7975, 7969, 834), (7984, 953, 787), (7985, 953, 788), (7986, 7984,
   768), (7987, 7985, 768), (7988, 7984, 769), (7989, 7985, 769), (7990, 7984, 834), (7991, 7985,
   834), (8000, 959, 787), (8001, 959, 788), (8002, 8000, 768), (8003, 8001, 768), (8004, 8000,
   769), (8005, 8001, 769), (8016, 965, 787), (8017, 965, 788), (8018, 8016, 768), (8019, 8017,
   768), (8020, 8016, 769), (8021, 8017, 769), (8022, 8016, 834), (8023, 8017, 834), (8032, 969,
   787), (8033, 969, 788), (8034, 8032, 768), (8035, 8033, 768), (8036, 8032, 769), (8037, 8033,
   769), (8038, 8032, 834), (8039, 8033, 834), (8048, 945, 768), (8050, 949, 768), (8052, 951, 768),
   (8054, 953, 768), (8056, 959, 768), (8058, 965, 768), (8060, 969, 768), (8112, 945, 774), (8113,
   945, 772), (8118, 945, 834), (8134, 951, 834), (8144, 953, 774), (8145, 953, 772), (8146, 970,
   768), (8150, 953, 834), (8151, 970, 834), (8160, 965, 774), (8161, 965, 772), (8162, 971, 768),
   (8164, 961, 787), (8165, 961, 788), (8166, 965, 834), (8167, 971, 834), (8182, 969, 834), (12364,
   12363, 12441), (12366, 12365, 12441), (12368, 12367, 12441), (12370, 12369, 12441), (12372,
   12371, 12441), (12374, 12373, 12441), (12376, 12375, 12441), (12378, 12377, 12441), (12380,
   12379, 12441), (12382, 12381, 12441), (12384, 12383, 12441), (12386, 12385, 12441), (12389,
   12388, 12441), (12391, 12390, 12441), (12393, 12392, 12441), (12400, 12399, 12441), (12401,
   12399, 12442), (12403, 12402, 12441), (12404, 12402, 12442), (12406, 12405, 12441), (12407,
   12405, 12442), (12409, 12408, 12441), (12410, 12408, 12442), (12412, 12411, 12441), (12413,
   12411, 12442), (12436, 12358, 12441), (12446, 12445, 12441), (12460, 12459, 12441), (12462,
   12461, 12441), (12464, 12463, 12441), (12466, 12465, 12441), (12468, 12467, 12441), (12470,
   12469, 12441), (12472, 12471, 12441), (12474, 12473, 12441), (12476, 12475, 12441), (12478,
   12477, 12441), (12480, 12479, 12441), (12482, 12481, 12441), (12485, 12484, 12441), (12487,
   12486, 12441), (12489, 12488, 12441), (12496, 12495, 12441), (12497, 12495, 12442), (12499,
   12498, 12441), (12500, 12498, 12442), (12502, 12501, 12441), (12503, 12501, 12442), (12505,
   12504, 12441), (12506, 12504, 12442), (12508, 12507, 12441), (12509, 12507, 12442), (12532,
   12454, 12441), (12535, 12527, 12441), (12536, 12528, 12441), (12537, 12529, 12441), (12538,
   12530, 12441), (12542, 12541, 12441), (69786, 69785, 69818), (69788, 69787, 69818), (69803,
   69797, 69818), (69934, 69937, 69927), (69935, 69938, 69927), (70475, 70471, 70462), (70476,
   70471, 70487), (70843, 70841, 70842), (70844, 70841, 70832), (70846, 70841, 70845), (71098,
   71096, 71087), (71099, 71097, 71087), (71992, 71989, 71984)]

/-- The character and the mark that a character stands for, taken apart as far as possible. -/
def parts : Nat → Char → List Char
  | 0, c => [c]
  | fuel + 1, c =>
    match compounds.find? (·.1 == c.toNat) with
    | some (_, first, second) => parts fuel (Char.ofNat first) ++ [Char.ofNat second]
    | none => [c]

/-- Puts a mark in its place among the marks at the end of a text, whose characters come last
first. -/
def place (c : Char) : List Char → List Char
  | [] => [c]
  | d :: ds => if rank c ≠ 0 && rank c < rank d then d :: place c ds else c :: d :: ds

/-- The characters of a text taken apart, with marks in normal order. -/
def apart (cs : List Char) : List Char :=
  ((cs.flatMap (parts 4)).foldl (fun back c => place c back) []).reverse

/-- The character that stands for two. -/
def compound? (a b : Char) : Option Char :=
  (compounds.find? fun p => p.2.1 == a.toNat && p.2.2 == b.toNat).map fun p => Char.ofNat p.1

/-- A text under way: what is done, last first, the character that marks combine with, and the marks
after it that stay, last first. -/
structure Composing where
  done : List Char := []
  start : Option Char := none
  marks : List Char := []

/-- All that was read so far, last first. -/
def Composing.all (s : Composing) : List Char := s.marks ++ s.start.toList ++ s.done

/-- Adds a character: to the one that it combines with, unless a mark between them keeps it off. -/
def Composing.add (s : Composing) (c : Char) : Composing :=
  let isFree := match s.marks with
    | [] => true
    | m :: _ => rank m < rank c
  match s.start.bind fun a => if isFree then compound? a c else none with
  | some d => { s with start := some d }
  | none =>
    if rank c = 0 then { done := s.all, start := some c } else { s with marks := c :: s.marks }

/-- The composed form of a text. -/
def composed (cs : List Char) : List Char := ((apart cs).foldl Composing.add {}).all.reverse

end Domain
end ApiScribe
