import PeepeeBox.Bytes

set_option autoImplicit false

/-!
# The picture-key transform

`cd_pic_s`: one byte per character, per case and per position of the name.
-/
namespace PeepeeBox.CdonglePictures

/-- Case 0: AA, constant 038B. -/
def cdPicCase0 : List (List ℕ) := [
  [0xF8FAFCFEF0F2F4F6E8EAECEEE0E2E4E6, 0xD8DADCDED0D2D4D6C8CACCCEC0C2C4C6,
   0xB8BABCBEB0B2B4B6A8AAACAEA0A2A4A6, 0x989A9C9E90929496888A8C8E80828486,
   0x787A7C7E70727476686A6C6E60626466, 0x585A5C5E50525456484A4C4E40424446,
   0x383A3C3E30323436282A2C2E20222426, 0x181A1C1E10121416080A0C0E00020406,
   0xF9FBFDFFF1F3F5F7E9EBEDEFE1E3E5E7, 0xD9DBDDDFD1D3D5D7C9CBCDCFC1C3C5C7,
   0xB9BBBDBFB1B3B5B7A9ABADAFA1A3A5A7, 0x999B9D9F91939597898B8D8F81838587,
   0x797B7D7F71737577696B6D6F61636567, 0x595B5D5F51535557494B4D4F41434547,
   0x393B3D3F31333537292B2D2F21232527, 0x191B1D1F11131517090B0D0F01030507],
  [0x73533313F3D3B39372523212F2D2B292, 0x71513111F1D1B19170503010F0D0B090,
   0x77573717F7D7B79776563616F6D6B696, 0x75553515F5D5B59574543414F4D4B494,
   0x7B5B3B1BFBDBBB9B7A5A3A1AFADABA9A, 0x79593919F9D9B99978583818F8D8B898,
   0x7F5F3F1FFFDFBF9F7E5E3E1EFEDEBE9E, 0x7D5D3D1DFDDDBD9D7C5C3C1CFCDCBC9C,
   0x63432303E3C3A38362422202E2C2A282, 0x61412101E1C1A18160402000E0C0A080,
   0x67472707E7C7A78766462606E6C6A686, 0x65452505E5C5A58564442404E4C4A484,
   0x6B4B2B0BEBCBAB8B6A4A2A0AEACAAA8A, 0x69492909E9C9A98968482808E8C8A888,
   0x6F4F2F0FEFCFAF8F6E4E2E0EEECEAE8E, 0x6D4D2D0DEDCDAD8D6C4C2C0CECCCAC8C],
  [0x89A9C9E90929496988A8C8E808284868, 0x8BABCBEB0B2B4B6B8AAACAEA0A2A4A6A,
   0x8DADCDED0D2D4D6D8CACCCEC0C2C4C6C, 0x8FAFCFEF0F2F4F6F8EAECEEE0E2E4E6E,
   0x81A1C1E10121416180A0C0E000204060, 0x83A3C3E30323436382A2C2E202224262,
   0x85A5C5E50525456584A4C4E404244464, 0x87A7C7E70727476786A6C6E606264666,
   0x99B9D9F91939597998B8D8F818385878, 0x9BBBDBFB1B3B5B7B9ABADAFA1A3A5A7A,
   0x9DBDDDFD1D3D5D7D9CBCDCFC1C3C5C7C, 0x9FBFDFFF1F3F5F7F9EBEDEFE1E3E5E7E,
   0x91B1D1F11131517190B0D0F010305070, 0x93B3D3F31333537392B2D2F212325272,
   0x95B5D5F51535557594B4D4F414345474, 0x97B7D7F71737577796B6D6F616365676],
  [0xFDDDBD9D7D5D3D1DFCDCBC9C7C5C3C1C, 0xFFDFBF9F7F5F3F1FFEDEBE9E7E5E3E1E,
   0xF9D9B99979593919F8D8B89878583818, 0xFBDBBB9B7B5B3B1BFADABA9A7A5A3A1A,
   0xF5D5B59575553515F4D4B49474543414, 0xF7D7B79777573717F6D6B69676563616,
   0xF1D1B19171513111F0D0B09070503010, 0xF3D3B39373533313F2D2B29272523212,
   0xEDCDAD8D6D4D2D0DECCCAC8C6C4C2C0C, 0xEFCFAF8F6F4F2F0FEECEAE8E6E4E2E0E,
   0xE9C9A98969492909E8C8A88868482808, 0xEBCBAB8B6B4B2B0BEACAAA8A6A4A2A0A,
   0xE5C5A58565452505E4C4A48464442404, 0xE7C7A78767472707E6C6A68666462606,
   0xE1C1A18161412101E0C0A08060402000, 0xE3C3A38363432303E2C2A28262422202],
  [0x373533313F3D3B39272523212F2D2B29, 0x171513111F1D1B19070503010F0D0B09,
   0x777573717F7D7B79676563616F6D6B69, 0x575553515F5D5B59474543414F4D4B49,
   0xB7B5B3B1BFBDBBB9A7A5A3A1AFADABA9, 0x979593919F9D9B99878583818F8D8B89,
   0xF7F5F3F1FFFDFBF9E7E5E3E1EFEDEBE9, 0xD7D5D3D1DFDDDBD9C7C5C3C1CFCDCBC9,
   0x363432303E3C3A38262422202E2C2A28, 0x161412101E1C1A18060402000E0C0A08,
   0x767472707E7C7A78666462606E6C6A68, 0x565452505E5C5A58464442404E4C4A48,
   0xB6B4B2B0BEBCBAB8A6A4A2A0AEACAAA8, 0x969492909E9C9A98868482808E8C8A88,
   0xF6F4F2F0FEFCFAF8E6E4E2E0EEECEAE8, 0xD6D4D2D0DEDCDAD8C6C4C2C0CECCCAC8],
  [0x8FAFCFEF0F2F4F6F8EAECEEE0E2E4E6E, 0x8DADCDED0D2D4D6D8CACCCEC0C2C4C6C,
   0x8BABCBEB0B2B4B6B8AAACAEA0A2A4A6A, 0x89A9C9E90929496988A8C8E808284868,
   0x87A7C7E70727476786A6C6E606264666, 0x85A5C5E50525456584A4C4E404244464,
   0x83A3C3E30323436382A2C2E202224262, 0x81A1C1E10121416180A0C0E000204060,
   0x9FBFDFFF1F3F5F7F9EBEDEFE1E3E5E7E, 0x9DBDDDFD1D3D5D7D9CBCDCFC1C3C5C7C,
   0x9BBBDBFB1B3B5B7B9ABADAFA1A3A5A7A, 0x99B9D9F91939597998B8D8F818385878,
   0x97B7D7F71737577796B6D6F616365676, 0x95B5D5F51535557594B4D4F414345474,
   0x93B3D3F31333537392B2D2F212325272, 0x91B1D1F11131517190B0D0F010305070],
  [0x75553515F5D5B59574543414F4D4B494, 0x77573717F7D7B79776563616F6D6B696,
   0x71513111F1D1B19170503010F0D0B090, 0x73533313F3D3B39372523212F2D2B292,
   0x7D5D3D1DFDDDBD9D7C5C3C1CFCDCBC9C, 0x7F5F3F1FFFDFBF9F7E5E3E1EFEDEBE9E,
   0x79593919F9D9B99978583818F8D8B898, 0x7B5B3B1BFBDBBB9B7A5A3A1AFADABA9A,
   0x65452505E5C5A58564442404E4C4A484, 0x67472707E7C7A78766462606E6C6A686,
   0x61412101E1C1A18160402000E0C0A080, 0x63432303E3C3A38362422202E2C2A282,
   0x6D4D2D0DEDCDAD8D6C4C2C0CECCCAC8C, 0x6F4F2F0FEFCFAF8F6E4E2E0EEECEAE8E,
   0x69492909E9C9A98968482808E8C8A888, 0x6B4B2B0BEBCBAB8B6A4A2A0AEACAAA8A],
  [0xE5C5A58565452505E4C4A48464442404, 0xE7C7A78767472707E6C6A68666462606,
   0xE1C1A18161412101E0C0A08060402000, 0xE3C3A38363432303E2C2A28262422202,
   0xEDCDAD8D6D4D2D0DECCCAC8C6C4C2C0C, 0xEFCFAF8F6F4F2F0FEECEAE8E6E4E2E0E,
   0xE9C9A98969492909E8C8A88868482808, 0xEBCBAB8B6B4B2B0BEACAAA8A6A4A2A0A,
   0xF5D5B59575553515F4D4B49474543414, 0xF7D7B79777573717F6D6B69676563616,
   0xF1D1B19171513111F0D0B09070503010, 0xF3D3B39373533313F2D2B29272523212,
   0xFDDDBD9D7D5D3D1DFCDCBC9C7C5C3C1C, 0xFFDFBF9F7F5F3F1FFEDEBE9E7E5E3E1E,
   0xF9D9B99979593919F8D8B89878583818, 0xFBDBBB9B7B5B3B1BFADABA9A7A5A3A1A]]

/-- Case 1: AB, constant 0A8E. -/
def cdPicCase1 : List (List ℕ) := [
  [0x58504840787068601810080038302820, 0xD8D0C8C0F8F0E8E098908880B8B0A8A0,
   0x59514941797169611911090139312921, 0xD9D1C9C1F9F1E9E199918981B9B1A9A1,
   0x5A524A427A726A621A120A023A322A22, 0xDAD2CAC2FAF2EAE29A928A82BAB2AAA2,
   0x5B534B437B736B631B130B033B332B23, 0xDBD3CBC3FBF3EBE39B938B83BBB3ABA3,
   0x5C544C447C746C641C140C043C342C24, 0xDCD4CCC4FCF4ECE49C948C84BCB4ACA4,
   0x5D554D457D756D651D150D053D352D25, 0xDDD5CDC5FDF5EDE59D958D85BDB5ADA5,
   0x5E564E467E766E661E160E063E362E26, 0xDED6CEC6FEF6EEE69E968E86BEB6AEA6,
   0x5F574F477F776F671F170F073F372F27, 0xDFD7CFC7FFF7EFE79F978F87BFB7AFA7],
  [0x2CAC2DAD2EAE2FAF28A829A92AAA2BAB, 0x24A425A526A627A720A021A122A223A3,
   0x3CBC3DBD3EBE3FBF38B839B93ABA3BBB, 0x34B435B536B637B730B031B132B233B3,
   0x0C8C0D8D0E8E0F8F088809890A8A0B8B, 0x04840585068607870080018102820383,
   0x1C9C1D9D1E9E1F9F189819991A9A1B9B, 0x14941595169617971090119112921393,
   0x6CEC6DED6EEE6FEF68E869E96AEA6BEB, 0x64E465E566E667E760E061E162E263E3,
   0x7CFC7DFD7EFE7FFF78F879F97AFA7BFB, 0x74F475F576F677F770F071F172F273F3,
   0x4CCC4DCD4ECE4FCF48C849C94ACA4BCB, 0x44C445C546C647C740C041C142C243C3,
   0x5CDC5DDD5EDE5FDF58D859D95ADA5BDB, 0x54D455D556D657D750D051D152D253D3],
  [0xABA3BBB38B839B93EBE3FBF3CBC3DBD3, 0x2B233B330B031B136B637B734B435B53,
   0xAAA2BAB28A829A92EAE2FAF2CAC2DAD2, 0x2A223A320A021A126A627A724A425A52,
   0xA9A1B9B189819991E9E1F9F1C9C1D9D1, 0x29213931090119116961797149415951,
   0xA8A0B8B088809890E8E0F8F0C8C0D8D0, 0x28203830080018106860787048405850,
   0xAFA7BFB78F879F97EFE7FFF7CFC7DFD7, 0x2F273F370F071F176F677F774F475F57,
   0xAEA6BEB68E869E96EEE6FEF6CEC6DED6, 0x2E263E360E061E166E667E764E465E56,
   0xADA5BDB58D859D95EDE5FDF5CDC5DDD5, 0x2D253D350D051D156D657D754D455D55,
   0xACA4BCB48C849C94ECE4FCF4CCC4DCD4, 0x2C243C340C041C146C647C744C445C54],
  [0x7C746C645C544C443C342C241C140C04, 0xFCF4ECE4DCD4CCC4BCB4ACA49C948C84,
   0x7D756D655D554D453D352D251D150D05, 0xFDF5EDE5DDD5CDC5BDB5ADA59D958D85,
   0x7E766E665E564E463E362E261E160E06, 0xFEF6EEE6DED6CEC6BEB6AEA69E968E86,
   0x7F776F675F574F473F372F271F170F07, 0xFFF7EFE7DFD7CFC7BFB7AFA79F978F87,
   0x78706860585048403830282018100800, 0xF8F0E8E0D8D0C8C0B8B0A8A098908880,
   0x79716961595149413931292119110901, 0xF9F1E9E1D9D1C9C1B9B1A9A199918981,
   0x7A726A625A524A423A322A221A120A02, 0xFAF2EAE2DAD2CAC2BAB2AAA29A928A82,
   0x7B736B635B534B433B332B231B130B03, 0xFBF3EBE3DBD3CBC3BBB3ABA39B938B83],
  [0xD8D0C8C0F8F0E8E098908880B8B0A8A0, 0x58504840787068601810080038302820,
   0xD9D1C9C1F9F1E9E199918981B9B1A9A1, 0x59514941797169611911090139312921,
   0xDAD2CAC2FAF2EAE29A928A82BAB2AAA2, 0x5A524A427A726A621A120A023A322A22,
   0xDBD3CBC3FBF3EBE39B938B83BBB3ABA3, 0x5B534B437B736B631B130B033B332B23,
   0xDCD4CCC4FCF4ECE49C948C84BCB4ACA4, 0x5C544C447C746C641C140C043C342C24,
   0xDDD5CDC5FDF5EDE59D958D85BDB5ADA5, 0x5D554D457D756D651D150D053D352D25,
   0xDED6CEC6FEF6EEE69E968E86BEB6AEA6, 0x5E564E467E766E661E160E063E362E26,
   0xDFD7CFC7FFF7EFE79F978F87BFB7AFA7, 0x5F574F477F776F671F170F073F372F27],
  [0x4CCC4DCD4ECE4FCF48C849C94ACA4BCB, 0x44C445C546C647C740C041C142C243C3,
   0x5CDC5DDD5EDE5FDF58D859D95ADA5BDB, 0x54D455D556D657D750D051D152D253D3,
   0x6CEC6DED6EEE6FEF68E869E96AEA6BEB, 0x64E465E566E667E760E061E162E263E3,
   0x7CFC7DFD7EFE7FFF78F879F97AFA7BFB, 0x74F475F576F677F770F071F172F273F3,
   0x0C8C0D8D0E8E0F8F088809890A8A0B8B, 0x04840585068607870080018102820383,
   0x1C9C1D9D1E9E1F9F189819991A9A1B9B, 0x14941595169617971090119112921393,
   0x2CAC2DAD2EAE2FAF28A829A92AAA2BAB, 0x24A425A526A627A720A021A122A223A3,
   0x3CBC3DBD3EBE3FBF38B839B93ABA3BBB, 0x34B435B536B637B730B031B132B233B3],
  [0x8B839B93ABA3BBB3CBC3DBD3EBE3FBF3, 0x0B031B132B233B334B435B536B637B73,
   0x8A829A92AAA2BAB2CAC2DAD2EAE2FAF2, 0x0A021A122A223A324A425A526A627A72,
   0x89819991A9A1B9B1C9C1D9D1E9E1F9F1, 0x09011911292139314941595169617971,
   0x88809890A8A0B8B0C8C0D8D0E8E0F8F0, 0x08001810282038304840585068607870,
   0x8F879F97AFA7BFB7CFC7DFD7EFE7FFF7, 0x0F071F172F273F374F475F576F677F77,
   0x8E869E96AEA6BEB6CEC6DED6EEE6FEF6, 0x0E061E162E263E364E465E566E667E76,
   0x8D859D95ADA5BDB5CDC5DDD5EDE5FDF5, 0x0D051D152D253D354D455D556D657D75,
   0x8C849C94ACA4BCB4CCC4DCD4ECE4FCF4, 0x0C041C142C243C344C445C546C647C74],
  [0x5C544C447C746C641C140C043C342C24, 0xDCD4CCC4FCF4ECE49C948C84BCB4ACA4,
   0x5D554D457D756D651D150D053D352D25, 0xDDD5CDC5FDF5EDE59D958D85BDB5ADA5,
   0x5E564E467E766E661E160E063E362E26, 0xDED6CEC6FEF6EEE69E968E86BEB6AEA6,
   0x5F574F477F776F671F170F073F372F27, 0xDFD7CFC7FFF7EFE79F978F87BFB7AFA7,
   0x58504840787068601810080038302820, 0xD8D0C8C0F8F0E8E098908880B8B0A8A0,
   0x59514941797169611911090139312921, 0xD9D1C9C1F9F1E9E199918981B9B1A9A1,
   0x5A524A427A726A621A120A023A322A22, 0xDAD2CAC2FAF2EAE29A928A82BAB2AAA2,
   0x5B534B437B736B631B130B033B332B23, 0xDBD3CBC3FBF3EBE39B938B83BBB3ABA3]]

/-- Case 2: AA, constant 1206. -/
def cdPicCase2 : List (List ℕ) := [
  [0x9BBBDBFB1B3B5B7B9ABADAFA1A3A5A7A, 0x99B9D9F91939597998B8D8F818385878,
   0x9FBFDFFF1F3F5F7F9EBEDEFE1E3E5E7E, 0x9DBDDDFD1D3D5D7D9CBCDCFC1C3C5C7C,
   0x93B3D3F31333537392B2D2F212325272, 0x91B1D1F11131517190B0D0F010305070,
   0x97B7D7F71737577796B6D6F616365676, 0x95B5D5F51535557594B4D4F414345474,
   0x8BABCBEB0B2B4B6B8AAACAEA0A2A4A6A, 0x89A9C9E90929496988A8C8E808284868,
   0x8FAFCFEF0F2F4F6F8EAECEEE0E2E4E6E, 0x8DADCDED0D2D4D6D8CACCCEC0C2C4C6C,
   0x83A3C3E30323436382A2C2E202224262, 0x81A1C1E10121416180A0C0E000204060,
   0x87A7C7E70727476786A6C6E606264666, 0x85A5C5E50525456584A4C4E404244464],
  [0xD9DBDDDFD1D3D5D7C9CBCDCFC1C3C5C7, 0xF9FBFDFFF1F3F5F7E9EBEDEFE1E3E5E7,
   0x999B9D9F91939597898B8D8F81838587, 0xB9BBBDBFB1B3B5B7A9ABADAFA1A3A5A7,
   0x595B5D5F51535557494B4D4F41434547, 0x797B7D7F71737577696B6D6F61636567,
   0x191B1D1F11131517090B0D0F01030507, 0x393B3D3F31333537292B2D2F21232527,
   0xD8DADCDED0D2D4D6C8CACCCEC0C2C4C6, 0xF8FAFCFEF0F2F4F6E8EAECEEE0E2E4E6,
   0x989A9C9E90929496888A8C8E80828486, 0xB8BABCBEB0B2B4B6A8AAACAEA0A2A4A6,
   0x585A5C5E50525456484A4C4E40424446, 0x787A7C7E70727476686A6C6E60626466,
   0x181A1C1E10121416080A0C0E00020406, 0x383A3C3E30323436282A2C2E20222426],
  [0x7D5D3D1DFDDDBD9D7C5C3C1CFCDCBC9C, 0x7F5F3F1FFFDFBF9F7E5E3E1EFEDEBE9E,
   0x79593919F9D9B99978583818F8D8B898, 0x7B5B3B1BFBDBBB9B7A5A3A1AFADABA9A,
   0x75553515F5D5B59574543414F4D4B494, 0x77573717F7D7B79776563616F6D6B696,
   0x71513111F1D1B19170503010F0D0B090, 0x73533313F3D3B39372523212F2D2B292,
   0x6D4D2D0DEDCDAD8D6C4C2C0CECCCAC8C, 0x6F4F2F0FEFCFAF8F6E4E2E0EEECEAE8E,
   0x69492909E9C9A98968482808E8C8A888, 0x6B4B2B0BEBCBAB8B6A4A2A0AEACAAA8A,
   0x65452505E5C5A58564442404E4C4A484, 0x67472707E7C7A78766462606E6C6A686,
   0x61412101E1C1A18160402000E0C0A080, 0x63432303E3C3A38362422202E2C2A282],
  [0x87A7C7E70727476786A6C6E606264666, 0x85A5C5E50525456584A4C4E404244464,
   0x83A3C3E30323436382A2C2E202224262, 0x81A1C1E10121416180A0C0E000204060,
   0x8FAFCFEF0F2F4F6F8EAECEEE0E2E4E6E, 0x8DADCDED0D2D4D6D8CACCCEC0C2C4C6C,
   0x8BABCBEB0B2B4B6B8AAACAEA0A2A4A6A, 0x89A9C9E90929496988A8C8E808284868,
   0x97B7D7F71737577796B6D6F616365676, 0x95B5D5F51535557594B4D4F414345474,
   0x93B3D3F31333537392B2D2F212325272, 0x91B1D1F11131517190B0D0F010305070,
   0x9FBFDFFF1F3F5F7F9EBEDEFE1E3E5E7E, 0x9DBDDDFD1D3D5D7D9CBCDCFC1C3C5C7C,
   0x9BBBDBFB1B3B5B7B9ABADAFA1A3A5A7A, 0x99B9D9F91939597998B8D8F818385878],
  [0x8BABCBEB0B2B4B6B8AAACAEA0A2A4A6A, 0x89A9C9E90929496988A8C8E808284868,
   0x8FAFCFEF0F2F4F6F8EAECEEE0E2E4E6E, 0x8DADCDED0D2D4D6D8CACCCEC0C2C4C6C,
   0x83A3C3E30323436382A2C2E202224262, 0x81A1C1E10121416180A0C0E000204060,
   0x87A7C7E70727476786A6C6E606264666, 0x85A5C5E50525456584A4C4E404244464,
   0x9BBBDBFB1B3B5B7B9ABADAFA1A3A5A7A, 0x99B9D9F91939597998B8D8F818385878,
   0x9FBFDFFF1F3F5F7F9EBEDEFE1E3E5E7E, 0x9DBDDDFD1D3D5D7D9CBCDCFC1C3C5C7C,
   0x93B3D3F31333537392B2D2F212325272, 0x91B1D1F11131517190B0D0F010305070,
   0x97B7D7F71737577796B6D6F616365676, 0x95B5D5F51535557594B4D4F414345474],
  [0x181A1C1E10121416080A0C0E00020406, 0x383A3C3E30323436282A2C2E20222426,
   0x585A5C5E50525456484A4C4E40424446, 0x787A7C7E70727476686A6C6E60626466,
   0x989A9C9E90929496888A8C8E80828486, 0xB8BABCBEB0B2B4B6A8AAACAEA0A2A4A6,
   0xD8DADCDED0D2D4D6C8CACCCEC0C2C4C6, 0xF8FAFCFEF0F2F4F6E8EAECEEE0E2E4E6,
   0x191B1D1F11131517090B0D0F01030507, 0x393B3D3F31333537292B2D2F21232527,
   0x595B5D5F51535557494B4D4F41434547, 0x797B7D7F71737577696B6D6F61636567,
   0x999B9D9F91939597898B8D8F81838587, 0xB9BBBDBFB1B3B5B7A9ABADAFA1A3A5A7,
   0xD9DBDDDFD1D3D5D7C9CBCDCFC1C3C5C7, 0xF9FBFDFFF1F3F5F7E9EBEDEFE1E3E5E7],
  [0x79593919F9D9B99978583818F8D8B898, 0x7B5B3B1BFBDBBB9B7A5A3A1AFADABA9A,
   0x7D5D3D1DFDDDBD9D7C5C3C1CFCDCBC9C, 0x7F5F3F1FFFDFBF9F7E5E3E1EFEDEBE9E,
   0x71513111F1D1B19170503010F0D0B090, 0x73533313F3D3B39372523212F2D2B292,
   0x75553515F5D5B59574543414F4D4B494, 0x77573717F7D7B79776563616F6D6B696,
   0x69492909E9C9A98968482808E8C8A888, 0x6B4B2B0BEBCBAB8B6A4A2A0AEACAAA8A,
   0x6D4D2D0DEDCDAD8D6C4C2C0CECCCAC8C, 0x6F4F2F0FEFCFAF8F6E4E2E0EEECEAE8E,
   0x61412101E1C1A18160402000E0C0A080, 0x63432303E3C3A38362422202E2C2A282,
   0x65452505E5C5A58564442404E4C4A484, 0x67472707E7C7A78766462606E6C6A686],
  [0x83A3C3E30323436382A2C2E202224262, 0x81A1C1E10121416180A0C0E000204060,
   0x87A7C7E70727476786A6C6E606264666, 0x85A5C5E50525456584A4C4E404244464,
   0x8BABCBEB0B2B4B6B8AAACAEA0A2A4A6A, 0x89A9C9E90929496988A8C8E808284868,
   0x8FAFCFEF0F2F4F6F8EAECEEE0E2E4E6E, 0x8DADCDED0D2D4D6D8CACCCEC0C2C4C6C,
   0x93B3D3F31333537392B2D2F212325272, 0x91B1D1F11131517190B0D0F010305070,
   0x97B7D7F71737577796B6D6F616365676, 0x95B5D5F51535557594B4D4F414345474,
   0x9BBBDBFB1B3B5B7B9ABADAFA1A3A5A7A, 0x99B9D9F91939597998B8D8F818385878,
   0x9FBFDFFF1F3F5F7F9EBEDEFE1E3E5E7E, 0x9DBDDDFD1D3D5D7D9CBCDCFC1C3C5C7C]]

/-- Case 3: AB, constant 7343. -/
def cdPicCase3 : List (List ℕ) := [
  [0xFF7FFE7EFD7DFC7CFB7BFA7AF979F878, 0xF777F676F575F474F373F272F171F070,
   0xEF6FEE6EED6DEC6CEB6BEA6AE969E868, 0xE767E666E565E464E363E262E161E060,
   0xDF5FDE5EDD5DDC5CDB5BDA5AD959D858, 0xD757D656D555D454D353D252D151D050,
   0xCF4FCE4ECD4DCC4CCB4BCA4AC949C848, 0xC747C646C545C444C343C242C141C040,
   0xBF3FBE3EBD3DBC3CBB3BBA3AB939B838, 0xB737B636B535B434B333B232B131B030,
   0xAF2FAE2EAD2DAC2CAB2BAA2AA929A828, 0xA727A626A525A424A323A222A121A020,
   0x9F1F9E1E9D1D9C1C9B1B9A1A99199818, 0x97179616951594149313921291119010,
   0x8F0F8E0E8D0D8C0C8B0B8A0A89098808, 0x87078606850584048303820281018000],
  [0x18100800383028205850484078706860, 0x98908880B8B0A8A0D8D0C8C0F8F0E8E0,
   0x19110901393129215951494179716961, 0x99918981B9B1A9A1D9D1C9C1F9F1E9E1,
   0x1A120A023A322A225A524A427A726A62, 0x9A928A82BAB2AAA2DAD2CAC2FAF2EAE2,
   0x1B130B033B332B235B534B437B736B63, 0x9B938B83BBB3ABA3DBD3CBC3FBF3EBE3,
   0x1C140C043C342C245C544C447C746C64, 0x9C948C84BCB4ACA4DCD4CCC4FCF4ECE4,
   0x1D150D053D352D255D554D457D756D65, 0x9D958D85BDB5ADA5DDD5CDC5FDF5EDE5,
   0x1E160E063E362E265E564E467E766E66, 0x9E968E86BEB6AEA6DED6CEC6FEF6EEE6,
   0x1F170F073F372F275F574F477F776F67, 0x9F978F87BFB7AFA7DFD7CFC7FFF7EFE7],
  [0xCFC7DFD7EFE7FFF78F879F97AFA7BFB7, 0x4F475F576F677F770F071F172F273F37,
   0xCEC6DED6EEE6FEF68E869E96AEA6BEB6, 0x4E465E566E667E760E061E162E263E36,
   0xCDC5DDD5EDE5FDF58D859D95ADA5BDB5, 0x4D455D556D657D750D051D152D253D35,
   0xCCC4DCD4ECE4FCF48C849C94ACA4BCB4, 0x4C445C546C647C740C041C142C243C34,
   0xCBC3DBD3EBE3FBF38B839B93ABA3BBB3, 0x4B435B536B637B730B031B132B233B33,
   0xCAC2DAD2EAE2FAF28A829A92AAA2BAB2, 0x4A425A526A627A720A021A122A223A32,
   0xC9C1D9D1E9E1F9F189819991A9A1B9B1, 0x49415951696179710901191129213931,
   0xC8C0D8D0E8E0F8F088809890A8A0B8B0, 0x48405850686078700800181028203830],
  [0x2D253D350D051D156D657D754D455D55, 0xADA5BDB58D859D95EDE5FDF5CDC5DDD5,
   0x2C243C340C041C146C647C744C445C54, 0xACA4BCB48C849C94ECE4FCF4CCC4DCD4,
   0x2F273F370F071F176F677F774F475F57, 0xAFA7BFB78F879F97EFE7FFF7CFC7DFD7,
   0x2E263E360E061E166E667E764E465E56, 0xAEA6BEB68E869E96EEE6FEF6CEC6DED6,
   0x29213931090119116961797149415951, 0xA9A1B9B189819991E9E1F9F1C9C1D9D1,
   0x28203830080018106860787048405850, 0xA8A0B8B088809890E8E0F8F0C8C0D8D0,
   0x2B233B330B031B136B637B734B435B53, 0xABA3BBB38B839B93EBE3FBF3CBC3DBD3,
   0x2A223A320A021A126A627A724A425A52, 0xAAA2BAB28A829A92EAE2FAF2CAC2DAD2],
  [0x1F9F1E9E1D9D1C9C1B9B1A9A19991898, 0x17971696159514941393129211911090,
   0x0F8F0E8E0D8D0C8C0B8B0A8A09890888, 0x07870686058504840383028201810080,
   0x3FBF3EBE3DBD3CBC3BBB3ABA39B938B8, 0x37B736B635B534B433B332B231B130B0,
   0x2FAF2EAE2DAD2CAC2BAB2AAA29A928A8, 0x27A726A625A524A423A322A221A120A0,
   0x5FDF5EDE5DDD5CDC5BDB5ADA59D958D8, 0x57D756D655D554D453D352D251D150D0,
   0x4FCF4ECE4DCD4CCC4BCB4ACA49C948C8, 0x47C746C645C544C443C342C241C140C0,
   0x7FFF7EFE7DFD7CFC7BFB7AFA79F978F8, 0x77F776F675F574F473F372F271F170F0,
   0x6FEF6EEE6DED6CEC6BEB6AEA69E968E8, 0x67E766E665E564E463E362E261E160E0],
  [0xF8F0E8E0D8D0C8C0B8B0A8A098908880, 0x78706860585048403830282018100800,
   0xF9F1E9E1D9D1C9C1B9B1A9A199918981, 0x79716961595149413931292119110901,
   0xFAF2EAE2DAD2CAC2BAB2AAA29A928A82, 0x7A726A625A524A423A322A221A120A02,
   0xFBF3EBE3DBD3CBC3BBB3ABA39B938B83, 0x7B736B635B534B433B332B231B130B03,
   0xFCF4ECE4DCD4CCC4BCB4ACA49C948C84, 0x7C746C645C544C443C342C241C140C04,
   0xFDF5EDE5DDD5CDC5BDB5ADA59D958D85, 0x7D756D655D554D453D352D251D150D05,
   0xFEF6EEE6DED6CEC6BEB6AEA69E968E86, 0x7E766E665E564E463E362E261E160E06,
   0xFFF7EFE7DFD7CFC7BFB7AFA79F978F87, 0x7F776F675F574F473F372F271F170F07],
  [0x2F273F370F071F176F677F774F475F57, 0xAFA7BFB78F879F97EFE7FFF7CFC7DFD7,
   0x2E263E360E061E166E667E764E465E56, 0xAEA6BEB68E869E96EEE6FEF6CEC6DED6,
   0x2D253D350D051D156D657D754D455D55, 0xADA5BDB58D859D95EDE5FDF5CDC5DDD5,
   0x2C243C340C041C146C647C744C445C54, 0xACA4BCB48C849C94ECE4FCF4CCC4DCD4,
   0x2B233B330B031B136B637B734B435B53, 0xABA3BBB38B839B93EBE3FBF3CBC3DBD3,
   0x2A223A320A021A126A627A724A425A52, 0xAAA2BAB28A829A92EAE2FAF2CAC2DAD2,
   0x29213931090119116961797149415951, 0xA9A1B9B189819991E9E1F9F1C9C1D9D1,
   0x28203830080018106860787048405850, 0xA8A0B8B088809890E8E0F8F0C8C0D8D0],
  [0x6D657D754D455D552D253D350D051D15, 0xEDE5FDF5CDC5DDD5ADA5BDB58D859D95,
   0x6C647C744C445C542C243C340C041C14, 0xECE4FCF4CCC4DCD4ACA4BCB48C849C94,
   0x6F677F774F475F572F273F370F071F17, 0xEFE7FFF7CFC7DFD7AFA7BFB78F879F97,
   0x6E667E764E465E562E263E360E061E16, 0xEEE6FEF6CEC6DED6AEA6BEB68E869E96,
   0x69617971494159512921393109011911, 0xE9E1F9F1C9C1D9D1A9A1B9B189819991,
   0x68607870484058502820383008001810, 0xE8E0F8F0C8C0D8D0A8A0B8B088809890,
   0x6B637B734B435B532B233B330B031B13, 0xEBE3FBF3CBC3DBD3ABA3BBB38B839B93,
   0x6A627A724A425A522A223A320A021A12, 0xEAE2FAF2CAC2DAD2AAA2BAB28A829A92]]

def cdPicCases : List (List (List ℕ)) := [cdPicCase0, cdPicCase1, cdPicCase2, cdPicCase3]

def cdPicS (which pos : ℕ) (ch : Byte) : Byte :=
  let row := ((cdPicCases.getD which []).getD pos []).getD (ch.toNat / 16) 0
  BitVec.ofNat 8 (row >>> (8 * (15 - ch.toNat % 16)))

end PeepeeBox.CdonglePictures
